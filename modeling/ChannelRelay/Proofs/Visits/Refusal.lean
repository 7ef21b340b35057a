import ChannelRelay.Proofs.Visits.Effect
import ChannelRelay.Proofs.Visits.Pair

/-!
# Operations on a store that refuses calls

A store may refuse the calls of any method with any error, and nothing happens then.  Whatever it
refuses and whatever tokens are drawn, an operation on tokens makes one write at most, and its
result tells what became of the records: without a change to report they are what they were, and
with one they differ in exactly the record that is reported (`Errand.changes_as_reported`).
-/

namespace ChannelRelay

/-- The answer to a call whose method is refused. -/
def Call.refusal? (refusals : StoreMethod → Option StoreError) :
    (call : Call) → Option call.Answer
  | .query _ => (refusals .query).map .error
  | .save _ => (refusals .save).map .error
  | .delete _ => (refusals .delete).map .error
  | .scan => (refusals .scan).map .error
  | _ => none

/-- Whether a call writes to the store. -/
def Call.isWrite : Call → Bool
  | .save _ | .delete _ => true
  | _ => false

namespace Store

/-- A query that is answered gives all records of its name, in some order. -/
def Shows (st : Store) : Prop :=
  ∀ name found, (st.query name).1 = .ok found → found.Perm (under name st.records)

/-- Only a ledger that is out of date leaves out records. -/
theorem shows_ledger {mode : StoreMode} (hmode : mode ≠ .stale) (l : Ledger) :
    (ledger mode l).Shows :=
  fun _ _ h => StoreMode.query_perm hmode h

theorem shows_table (t : Table) : (table t).Shows := by
  intro name found h
  rw [Table.eq_under_of_query h]
  exact .refl _

end Store

namespace Surroundings

/-- Answers a call unless its method is refused. -/
def refusing (refusals : StoreMethod → Option StoreError) (call : Call) (s : Surroundings) :
    call.Answer × Surroundings :=
  match call.refusal? refusals with
  | some refused => (refused, s)
  | none => answer call s

variable {refusals : StoreMethod → Option StoreError}

theorem admissible_refusing (refusals : StoreMethod → Option StoreError) :
    Admissible (refusing refusals) := by
  intro call s
  unfold refusing
  split
  · rename_i refused hrefused
    have herror : ∀ name found,
        (⟨call, refused⟩ : Exchange) ≠ ⟨.query name, .ok found⟩ := by
      rintro name found heq
      obtain ⟨rfl, heq⟩ := Exchange.mk.inj heq
      obtain rfl := eq_of_heq heq
      simp [Call.refusal?] at hrefused
    refine .quiet ?_ fun name found heq => absurd heq (herror name found)
    cases call with
    | save c =>
        obtain ⟨e, -, rfl⟩ := Option.map_eq_some_iff.1 hrefused
        exact ⟨rfl, rfl⟩
    | delete c =>
        obtain ⟨e, -, rfl⟩ := Option.map_eq_some_iff.1 hrefused
        exact ⟨rfl, rfl⟩
    | _ => exact ⟨rfl, rfl⟩
  · exact s.admits call

/-- A query that is not refused is answered by the store. -/
theorem query_of_refusing {s : Surroundings} {name : String} {found : List Credential}
    (h : (refusing refusals (.query name) s).1 = .ok found) :
    (s.store.query name).1 = .ok found := by
  unfold refusing Call.refusal? at h
  cases hrefused : refusals .query with
  | none =>
      rw [hrefused] at h
      exact h
  | some e =>
      rw [hrefused] at h
      exact absurd h (by simp)

end Surroundings

namespace Dialogue

/-- The first exchange of a run is answered in the surroundings at its start. -/
theorem answer_of_transcript {α σ : Type} {answer : (c : Call) → σ → c.Answer × σ}
    {d : Dialogue α} {s : σ} {call : Call} {a : call.Answer} {es : List Exchange}
    (h : d.transcript answer s = ⟨call, a⟩ :: es) : (answer call s).1 = a := by
  cases d with
  | done => exact absurd h (by simp [transcript])
  | ask first next =>
      obtain ⟨hfirst, -⟩ := List.cons.inj h
      obtain ⟨rfl, ha⟩ := Exchange.mk.inj hfirst
      exact eq_of_heq ha

end Dialogue

namespace Errand

/-- What an operation on tokens makes of the stored records, by its result.  Without an event they
are kept; with one, a record is added to all the others or taken out from among them. -/
inductive Changes (before : List Credential) :
    Errand → Except RelayError Outcome → List Credential → Prop where
  | kept {r : Errand} {result : Except RelayError Outcome} (h : r.event? result = none) :
      Changes before r result before
  | issued {now : Instant} {channelId name : String} {c : Credential} {after : List Credential}
      (hfree : under name before = []) (hid : c.channelId = channelId)
      (hname : c.channelName = name) (hversion : c.version = 0)
      (h : after.Perm (c :: before)) :
      Changes before (.issue now channelId name) (.ok (.issued ⟨c.token, true⟩)) after
  | added {now : Instant} {channelId name : String} {a c : Credential}
      {after : List Credential} (hone : under name before = [a]) (hid : c.channelId = channelId)
      (hname : c.channelName = name)
      (hversion : a.version < Int32.maxValue → c.version.toInt = a.version.toInt + 1)
      (h : after.Perm (c :: before)) :
      Changes before (.add now channelId name) (.ok (.added (.generated c.token))) after
  | revoked {name : String} {c : Credential} {after : List Credential}
      (hname : c.channelName = name) (h : before.Perm (c :: after)) :
      Changes before (.revoke name c.token) (.ok (.revoked .revoked)) after
  | revokedRenamed {channelId name : String} {c : Credential} {after : List Credential}
      (hid : c.channelId ≠ channelId) (hname : c.channelName = name)
      (h : before.Perm (c :: after)) :
      Changes before (.revokeRenamed channelId name c.token) (.ok (.revokedRenamed .revoked)) after

/-- The operations that draw tokens, with the records that are stored under their names. -/
inductive MayDraw : Errand → List Credential → Prop where
  | issue {now : Instant} {channelId name : String} : MayDraw (.issue now channelId name) []
  | add {now : Instant} {channelId name : String} {a : Credential} :
      MayDraw (.add now channelId name) [a]

/-! ## The calls of an operation -/

theorem isWrite_of_hasRead {name : String} {found : List Credential} {past : List Exchange}
    (h : HasRead name found past) : ∀ e ∈ past, e.call.isWrite = false := by
  obtain ⟨draws, rfl, hdraws⟩ := h
  intro e he
  rcases List.mem_cons.1 he with rfl | he
  · rfl
  · rw [hdraws e he]
    rfl

/-- An operation on tokens writes after it has read, and after nothing but draws. -/
theorem hasRead_of_isWrite {r : Errand} {name : String} (hname : r.name? = some name)
    {past : List Exchange} {call : Call} (hmay : r.May past call)
    (hwrite : call.isWrite = true) : ∃ name found, HasRead name found past := by
  cases call with
  | save c =>
      obtain ⟨found, hread, -⟩ := hasRead_of_adds hmay
      exact ⟨_, found, hread⟩
  | delete c =>
      obtain ⟨found, hread, -⟩ := hasRead_of_removes hname hmay
      exact ⟨name, found, hread⟩
  | _ => exact absurd hwrite (by simp [Call.isWrite])

/-- There is one write at most among calls that an operation on tokens may make. -/
theorem countP_isWrite_le_one {r : Errand} {name : String} (hname : r.name? = some name)
    {es : List Exchange}
    (hmay : ∀ before e after, es = before ++ e :: after → r.May before e.call) :
    es.countP (·.call.isWrite) ≤ 1 := by
  induction es using List.reverseRecOn with
  | nil => exact Nat.zero_le 1
  | append_singleton es e ih =>
      rw [List.countP_append, List.countP_singleton]
      by_cases hwrite : e.call.isWrite = true
      · obtain ⟨name', found, hread⟩ := hasRead_of_isWrite hname (hmay es e [] rfl) hwrite
        have hnone : es.countP (·.call.isWrite) = 0 :=
          List.countP_eq_zero.2 fun e he => by simp [isWrite_of_hasRead hread e he]
        rw [hnone, if_pos hwrite]
      · rw [if_neg hwrite]
        refine ih fun before e' after hsplit => hmay before e' (after ++ [e]) ?_
        rw [hsplit, List.append_assoc, List.cons_append]

section Reads

variable {r : Errand} {refusals : StoreMethod → Option StoreError} {s : Surroundings}
  {past : List Exchange}

/-- What an operation has read are the records that were stored when it began. -/
theorem found_perm (hshows : s.store.Shows)
    (hpast : past <+: r.operation.run.transcript (Surroundings.refusing refusals) s)
    {name : String} {found : List Credential} (hread : HasRead name found past) :
    found.Perm (under name s.store.records) := by
  obtain ⟨draws, rfl, -⟩ := hread
  obtain ⟨later, hsplit⟩ := hpast
  have hquery := Dialogue.answer_of_transcript hsplit.symm
  exact hshows name found (Surroundings.query_of_refusing hquery)

theorem mayDraw_of_draws (hshows : s.store.Shows)
    (hpast : past <+: r.operation.run.transcript (Surroundings.refusing refusals) s)
    {name : String} (hname : r.name? = some name) (hdraws : r.Draws past) :
    MayDraw r (under name s.store.records) := by
  cases r with
  | issue now channelId name' =>
      obtain rfl := Option.some.inj hname
      rw [← (found_perm hshows hpast hdraws).nil_eq]
      exact .issue
  | add now channelId name' =>
      obtain rfl := Option.some.inj hname
      obtain ⟨a, hread⟩ := hdraws
      rw [← List.singleton_perm.1 (found_perm hshows hpast hread)]
      exact .add
  | _ => exact hdraws.elim

end Reads

/-! ## The records after an operation -/

/-- A write that is reported is the change that the result tells. -/
theorem changes_of_writes {r : Errand} {result : Except RelayError Outcome}
    {past : List Exchange} {l l' : Ledger}
    (hwrites : r.Writes past l (r.event? result) l')
    (hfound : ∀ name found, HasRead name found past → found.Perm (under name l.records)) :
    Changes l.records r result l'.records := by
  cases hevent : r.event? result with
  | none =>
      rw [hevent] at hwrites
      cases hwrites
      exact .kept hevent
  | some event =>
      rw [hevent] at hwrites
      unfold event? at hevent
      split at hevent
      case h_1 now channelId name token =>
        obtain rfl := Option.some.inj hevent
        cases hwrites with
        | @saves _ c hadds hsave =>
            obtain ⟨hread, _, hc⟩ := hadds
            exact .issued (hfound _ _ hread).nil_eq.symm rfl rfl (congrArg Credential.version hc)
              (Ledger.perm_of_save hsave)
      case h_2 now channelId name token =>
        obtain rfl := Option.some.inj hevent
        cases hwrites with
        | @saves _ c hadds hsave =>
            obtain ⟨a, _, hread, -, hc⟩ := hadds
            have hone := List.singleton_perm.1 (hfound _ _ hread)
            refine .added hone.symm rfl rfl (fun hmax => ?_) (Ledger.perm_of_save hsave)
            rw [congrArg Credential.version hc]
            exact toInt_add_one (Int32.ne_of_lt hmax)
      case h_3 name token =>
        obtain rfl := Option.some.inj hevent
        cases hwrites with
        | deletes _ hc hdelete => exact .revoked rfl (Ledger.perm_of_delete hc hdelete)
      case h_4 channelId name token =>
        obtain rfl := Option.some.inj hevent
        cases hwrites with
        | deletes hremoves hc hdelete =>
            obtain ⟨_, -, -, -, hid⟩ := hremoves
            exact .revokedRenamed hid rfl (Ledger.perm_of_delete hc hdelete)
      case h_5 => exact absurd hevent (by simp)

/-- An operation on tokens makes one write at most, whatever calls the store refuses and whatever
tokens are drawn.  Its result tells what became of the records, and it draws tokens only for the
first record of a name and for the second. -/
theorem changes_as_reported {r : Errand} {name : String} (hname : r.name? = some name)
    (refusals : StoreMethod → Option StoreError) {s : Surroundings} (hshows : s.store.Shows) :
    let calls := r.operation.run.transcript (Surroundings.refusing refusals) s
    let ended := r.operation.run.run (Surroundings.refusing refusals) s
    calls.countP (·.call.isWrite) ≤ 1 ∧
      Changes s.store.records r ended.1 ended.2.store.records ∧
      ∀ e ∈ calls, e.call = .draw → MayDraw r (under name s.store.records) := by
  intro calls ended
  have hmay : ∀ before e after, calls = before ++ e :: after → r.May before e.call :=
    fun before e after hsplit =>
      r.follows.may_call (Surroundings.refusing refusals) hsplit
  refine ⟨countP_isWrite_le_one hname hmay, ?_, ?_⟩
  · have hsome : r.name? ≠ none := by simp [hname]
    obtain ⟨past, hpast, hwrites⟩ :=
      writes hsome (Surroundings.admissible_refusing refusals) s
    rw [Store.records_eq, Store.records_eq]
    refine changes_of_writes hwrites fun name found hread => ?_
    rw [← Store.records_eq]
    exact found_perm hshows hpast hread
  · intro e he hdraw
    obtain ⟨before, after, hsplit⟩ := List.append_of_mem he
    have hdraws := hmay before e after hsplit
    rw [hdraw] at hdraws
    exact mayDraw_of_draws hshows ⟨e :: after, hsplit.symm⟩ hname hdraws

/-- One token under a name, of another channel, and two tokens to come, of which the first is in
use. -/
def oneToken : Surroundings :=
  .ofStore (.ledger .plain
    ⟨[⟨"ci", 4, "C9", "a", "2024-01-02T03:04:05Z"⟩], List.pairwise_singleton ..⟩)
    [some "a", some "b"]

/-- A rotation that finds a token of version 4 adds one of version 5. -/
theorem rotation_as_reported :
    let r := Errand.add .epoch "C1" "ci"
    let ended := r.operation.run.run (Surroundings.refusing fun _ => none) oneToken
    r.name? = some "ci" ∧ oneToken.store.Shows ∧
      ∃ c : Credential, ended.1 = .ok (.added (.generated c.token)) ∧
        c.version.toInt = 5 ∧ ended.2.store.records.Perm (c :: oneToken.store.records) := by
  intro r ended
  have hshows : oneToken.store.Shows := Store.shows_ledger (by simp) _
  refine ⟨rfl, hshows, ?_⟩
  obtain ⟨-, hchanges, -⟩ := changes_as_reported (r := r) rfl (fun _ => none) hshows
  have hadded : ended.2.store.records ≠ oneToken.store.records := by decide +kernel
  change Changes _ (.add .epoch "C1" "ci") ended.1 ended.2.store.records at hchanges
  generalize ended.1 = result at hchanges ⊢
  generalize ended.2.store.records = after at hchanges hadded ⊢
  cases hchanges with
  | kept => exact absurd rfl hadded
  | @added _ _ _ a c _ hone _ _ hversion hperm =>
      obtain rfl : _ = a := List.singleton_inj.1 hone
      exact ⟨c, rfl, hversion (by decide), hperm⟩

end Errand

end ChannelRelay
