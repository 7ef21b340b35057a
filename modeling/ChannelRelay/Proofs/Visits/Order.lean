import ChannelRelay.Proofs.Visits.Verdict
import Mathlib

/-!
# The order in which a store lists records

A store may return the records of a name in any order, and in another order at each
query, and nobody can tell it from one that returns them in the order of their versions:
all results and everything that is left behind are the same (`Shuffle.course_eq`).

* `Errand.unordered` says once what the operations on tokens do with the records that
  they find.  All but the check of a token sort them.  The check takes the first record
  with its token, and there is only one such record as long as no two records of a name
  share a token (`Ledger.Distinct`).
* `Shuffle.run_of_no_query` lets the rest of an operation run alike in both worlds, since
  after its first call it makes no further query.
* `Shuffle.course_from` carries both along a run of visits.
-/

namespace ChannelRelay

/-- The order in which each query lists the records that it finds; the queries are
numbered. -/
structure Shuffle where
  order : Nat → List Credential → List Credential
  perm : ∀ n found, (order n found).Perm found

/-- Answers a call, with the records of a query out of order; `n` queries came before. -/
def Shuffle.answer (o : Shuffle) :
    (c : Call) → Surroundings × Nat → c.Answer × Surroundings × Nat
  | .query name, (s, n) =>
    ((Surroundings.answer (.query name) s).1.map (o.order n),
      (Surroundings.answer (.query name) s).2, n + 1)
  | call, (s, n) => ((Surroundings.answer call s).1, (Surroundings.answer call s).2, n)

/-- What is seen of some visits: the result of each of them, with the surroundings after
it, and so the records, the tokens that were drawn and all else. -/
def Surroundings.course (s : Surroundings) :
    List Visit → List (Except RelayError Outcome × Surroundings)
  | [] => []
  | v :: visits => (v.result s, v.leave s) :: (v.leave s).course visits

/-- A visit to a store that lists records out of order. -/
def Shuffle.visit (o : Shuffle) (v : Visit) (s : Surroundings) (n : Nat) :
    Except RelayError Outcome × Surroundings × Nat :=
  v.errand.operation.run.run o.answer ({ s with chat := v.chat }, n)

/-- What is seen of some visits to such a store. -/
def Shuffle.course (o : Shuffle) (s : Surroundings) (n : Nat) :
    List Visit → List (Except RelayError Outcome × Surroundings)
  | [] => []
  | v :: visits =>
    let (result, s', n') := o.visit v s n
    (result, s') :: o.course s' n' visits

/-! ## Records out of order -/

namespace Ledger

variable {l : Ledger} {name : String} {found : List Credential}

/-- If no two records of a name share a token, then the first record with a token is the
same in every order. -/
theorem Distinct.find?_of_perm (hdistinct : l.Distinct) (h : found.Perm (under name l.records))
    (token : String) :
    found.find? (·.token == token) = (under name l.records).find? (·.token == token) := by
  cases hfind : found.find? (·.token == token) with
  | none =>
      symm
      rw [List.find?_eq_none] at hfind ⊢
      exact fun c hc => hfind c (h.mem_iff.2 hc)
  | some c =>
      have hc : c ∈ under name l.records := h.mem_iff.1 (List.mem_of_find?_eq_some hfind)
      have htoken : c.token = token := by simpa using List.find?_some hfind
      cases hfind' : (under name l.records).find? (·.token == token) with
      | none => exact absurd (by simpa using htoken) (List.find?_eq_none.1 hfind' c hc)
      | some d =>
          have hd : d ∈ under name l.records := List.mem_of_find?_eq_some hfind'
          have htoken' : d.token = token := by simpa using List.find?_some hfind'
          obtain ⟨hcl, hcname⟩ := mem_under.1 hc
          obtain ⟨hdl, hdname⟩ := mem_under.1 hd
          rw [hdistinct c hcl d hdl (hcname.trans hdname.symm) (htoken.trans htoken'.symm)]

end Ledger

/-! ## One visit -/

/-- A dialogue that begins with a query for a name and goes on in the same way in
whatever order it is told the records. -/
def Dialogue.Unordered {α : Type} (name : String) (d : Dialogue α) : Prop :=
  ∃ next, d = .ask (.query name) next ∧
    ∀ (l : Ledger) (found : List Credential), l.Distinct →
      found.Perm (under name l.records) → next (.ok found) = next (.ok (under name l.records))

namespace Errand

section Reads

variable {α : Type} {name : String} {f : List Credential → Operation α}

theorem unordered_query (outcome : α → Outcome)
    (hsame : ∀ (l : Ledger) (found : List Credential), l.Distinct →
      found.Perm (under name l.records) → f found = f (under name l.records)) :
    (outcome <$> (Operation.query name >>= f)).run.Unordered name := by
  refine ⟨_, rfl, fun l found hdistinct hperm => ?_⟩
  show (outcome <$> f found).run = (outcome <$> f (under name l.records)).run
  rw [hsame l found hdistinct hperm]

/-- What sorts the records first does not depend on their order. -/
theorem unordered_records (outcome : α → Outcome) :
    (outcome <$> (Rotation.records name >>= f)).run.Unordered name := by
  rw [records_bind]
  refine unordered_query outcome fun l found _ hperm => ?_
  rw [Ledger.mergeSort_of_perm hperm, Ledger.mergeSort_of_perm (List.Perm.refl _)]

end Reads

/-- The check of a token does not sort, but there is only one record that it can find. -/
theorem unordered_verify (name token : String) :
    (verify name token).operation.run.Unordered name := by
  refine unordered_query .verdict fun l found hdistinct hperm => ?_
  rw [hperm.isEmpty_eq, hdistinct.find?_of_perm hperm token]

theorem unordered {r : Errand} {name : String} (hname : r.name? = some name) :
    r.operation.run.Unordered name := by
  cases r with
  | verify name' token =>
      obtain rfl := Option.some.inj hname
      exact unordered_verify name' token
  | pass ops => exact absurd hname (by simp [name?])
  | _ =>
      obtain rfl := Option.some.inj hname
      exact unordered_records _

end Errand

namespace Shuffle

/-- A dialogue that makes no query cannot tell the two worlds apart. -/
theorem run_of_no_query {α : Type} (o : Shuffle) {may : List Exchange → Call → Prop}
    {ends : List Exchange → α → Prop} {d : Dialogue α} {past : List Exchange}
    (h : d.Follows may ends past)
    (hno : ∀ more name, ¬ may (past ++ more) (.query name)) (s : Surroundings) (n : Nat) :
    d.run o.answer (s, n) =
      ((d.run Surroundings.answer s).1, (d.run Surroundings.answer s).2, n) := by
  induction d generalizing past s with
  | done a => rfl
  | ask call next ih =>
      have hcall : o.answer call (s, n) =
          ((Surroundings.answer call s).1, (Surroundings.answer call s).2, n) := by
        cases call with
        | query name =>
            -- The rule permits no query after the exchanges so far.
            have hmay := h.1
            rw [← List.append_nil past] at hmay
            exact absurd hmay (hno [] name)
        | _ => rfl
      rw [Dialogue.run, Dialogue.run, hcall]
      refine ih _ (h.2 _) ?_ _
      intro more name
      rw [List.append_assoc]
      exact hno _ name

/-- A visit to a plain ledger is the same in both worlds if no two records of a name share
a token. -/
theorem visit_eq (o : Shuffle) (v : Visit) {s : Surroundings} {l : Ledger}
    (hstore : s.store = .ledger .plain l) (hdistinct : l.Distinct) (n : Nat) :
    ∃ n', o.visit v s n = (v.result s, v.leave s, n') := by
  obtain ⟨r, chat⟩ := v
  have hfollows := r.follows
  cases hname : r.name? with
  | none =>
      -- A pass reads all records at once and makes no query at all.
      refine ⟨n, o.run_of_no_query hfollows ?_ _ n⟩
      intro more name hmay
      exact absurd (hname.symm.trans hmay.1) (by simp)
  | some name =>
      obtain ⟨next, hrun, hnext⟩ := Errand.unordered hname
      obtain ⟨l', -, hanswer, -⟩ := Surroundings.answers_ledger (s := { s with chat := chat })
        hstore (.query name)
      rw [Ledger.query_eq_under] at hanswer
      have hshuffled : o.answer (.query name) ({ s with chat := chat }, n) =
          (.ok (o.order n (under name l.records)),
            (Surroundings.answer (.query name) { s with chat := chat }).2, n + 1) := by
        rw [Shuffle.answer, hanswer]
        rfl
      refine ⟨n + 1, ?_⟩
      show r.operation.run.run o.answer ({ s with chat := chat }, n) =
        ((r.operation.run.run Surroundings.answer { s with chat := chat }).1,
          (r.operation.run.run Surroundings.answer { s with chat := chat }).2, n + 1)
      rw [hrun] at hfollows
      rw [hrun, Dialogue.run, Dialogue.run, hshuffled, hanswer, hnext l _ hdistinct (o.perm n _)]
      -- The query was the first call, so there is no other one.
      refine o.run_of_no_query (hfollows.2 _) ?_ _ _
      intro more name' hmay
      exact absurd hmay.2 (by simp)

/-! ## A run of visits -/

theorem course_from (o : Shuffle) {s : Surroundings} {l : Ledger} {events : List Event}
    (hstore : s.store = .ledger .plain l) (hdistinct : l.Distinct) (htells : l.Tells events)
    (n : Nat) (visits : List Visit) : o.course s n visits = s.course visits := by
  -- That no two records of a name share a token is kept by each visit, so the step for one
  -- visit applies to all of them.
  induction visits generalizing s l events n with
  | nil => rfl
  | cons v visits ih =>
      obtain ⟨n', hvisit⟩ := o.visit_eq v hstore hdistinct n
      obtain ⟨m, hm, hserves⟩ := v.serves hstore
      obtain ⟨hdistinct', htells'⟩ := hserves.tells hdistinct htells
      rw [Shuffle.course, hvisit, Surroundings.course]
      exact congrArg _ (ih hm hdistinct' htells' n')

/-- From an empty store on, every run of visits has the same results and leaves the same
behind after each visit, in whatever order each of its queries lists the records. -/
theorem course_eq (o : Shuffle) (tokens : List (Option String)) (visits : List Visit) :
    o.course (.fresh tokens) 0 visits = (Surroundings.fresh tokens).course visits :=
  o.course_from rfl Ledger.distinct_empty Ledger.tells_empty 0 visits

/-- Every query lists the records from the last version to the first. -/
def reversed : Shuffle where
  order _ found := found.reverse
  perm _ found := List.reverse_perm found

/-- A first token, a rotation, checks of both tokens, a revocation of the older one, and another
check of it. -/
def checks : List Visit :=
  let chat : Chat := .directory ⟨[], none, []⟩
  [⟨.issue .epoch "C1" "ci", chat⟩, ⟨.add .epoch "C1" "ci", chat⟩, ⟨.verify "ci" "a", chat⟩,
    ⟨.verify "ci" "b", chat⟩, ⟨.revoke "ci" "a", chat⟩, ⟨.verify "ci" "a", chat⟩]

/-- While there are two tokens the checks are told the newer one first, and find what they find
in the other order. -/
theorem course_eq_reversed :
    let s := Surroundings.fresh [some "a", some "b"]
    let seen := reversed.course s 0 checks
    (reversed.answer (.query "ci") (s.visited (checks.take 2), 2)).1.map
        (List.map Credential.token) = .ok ["b", "a"] ∧
      seen = s.course checks ∧
      seen.map Prod.fst = [.ok (.issued ⟨"a", true⟩), .ok (.added (.generated "b")),
        .ok (.verdict (.matched "C1" "ci")), .ok (.verdict (.matched "C1" "ci")),
        .ok (.revoked .revoked), .ok (.verdict .unmatch)] ∧
      seen.map (fun v => v.2.store.records.map Credential.token) =
        [["a"], ["a", "b"], ["a", "b"], ["a", "b"], ["b"], ["b"]] := by
  refine ⟨?_, reversed.course_eq _ checks, ?_, ?_⟩
  · cbv
  · cbv
  · cbv

end Shuffle

end ChannelRelay
