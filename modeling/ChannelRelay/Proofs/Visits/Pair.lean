import ChannelRelay.Proofs.Visits.Run
import Mathlib

/-!
# The records of a name

A name starts without records, gets its first token at version 0, and then moves
between one and two records: a rotation adds the next version, and a revocation or a
pass takes out either of them, or both.  So there are never more than two, and two of
them have different tokens and consecutive versions, whatever was taken out and added
again before (`records_paired`).  This holds until a version is the greatest number of
32 bits, which takes as many visits (`no_version_at_max`).
-/

namespace ChannelRelay

/-- Records as they follow from first tokens, rotations and revocations. -/
inductive Rotated : List Credential → Prop where
  | none : Rotated []
  | one {a : Credential} (hversion : 0 ≤ a.version) : Rotated [a]
  | two {a b : Credential} (hversion : 0 ≤ a.version)
      (hnext : b.version.toInt = a.version.toInt + 1) (htoken : a.token ≠ b.token) :
      Rotated [a, b]

/-- The next version is greater by one, unless there is none. -/
theorem toInt_add_one {v : Int32} (h : v ≠ Int32.maxValue) :
    (v + 1).toInt = v.toInt + 1 := by
  have hle := Int32.toInt_le v
  have hge := Int32.le_toInt v
  have hne : v.toInt ≠ Int32.maxValue.toInt := fun heq => h (Int32.toInt_inj.1 heq)
  rw [Int32.toInt_maxValue] at hle hne
  rw [Int32.toInt_add, show (1 : Int32).toInt = 1 from rfl]
  exact Int.bmod_eq_of_le (by omega) (by omega)

namespace Rotated

theorem of_sublist_singleton {a : Credential} {rest : List Credential}
    (hversion : 0 ≤ a.version) (hsub : rest.Sublist [a]) : Rotated rest := by
  cases hsub with
  | cons _ hsub =>
      rw [List.sublist_nil.1 hsub]
      exact none
  | cons_cons _ hsub =>
      rw [List.sublist_nil.1 hsub]
      exact one hversion

/-- Either record of two may go, or both. -/
theorem of_sublist {records rest : List Credential} (h : Rotated records)
    (hsub : rest.Sublist records) : Rotated rest := by
  cases h with
  | none =>
      rw [List.sublist_nil.1 hsub]
      exact none
  | one hversion => exact of_sublist_singleton hversion hsub
  | @two a b hversion hnext htoken =>
      cases hsub with
      | cons _ hsub =>
          refine of_sublist_singleton ?_ hsub
          rw [Int32.le_iff_toInt_le] at hversion ⊢
          omega
      | @cons_cons rest _ _ hsub =>
          cases hsub with
          | cons _ hsub =>
              rw [List.sublist_nil.1 hsub]
              exact one hversion
          | cons_cons _ hsub =>
              rw [List.sublist_nil.1 hsub]
              exact two hversion hnext htoken

theorem length_le {records : List Credential} (h : Rotated records) :
    records.length ≤ Rotation.maxTokens := by
  cases h with
  | none => exact Nat.zero_le _
  | one => exact Nat.le_succ 1
  | two => exact Nat.le_refl 2

theorem version_nonneg {records : List Credential} (h : Rotated records) :
    ∀ c ∈ records, 0 ≤ c.version := by
  intro c hc
  cases h with
  | none => exact absurd hc List.not_mem_nil
  | one hversion =>
      rw [List.mem_singleton.1 hc]
      exact hversion
  | two hversion hnext =>
      rcases List.mem_cons.1 hc with rfl | hc
      · exact hversion
      · rw [List.mem_singleton.1 hc]
        rw [Int32.le_iff_toInt_le] at hversion ⊢
        omega

end Rotated

namespace Ledger

/-- The records of every name are as they should be. -/
def Paired (l : Ledger) : Prop :=
  ∀ name, Rotated (under name l.records)

theorem paired_empty : Ledger.empty.Paired :=
  fun _ => Rotated.none

/-- Deletes leave fewer records of every name, and no others. -/
theorem Removals.sublist {l l' : Ledger} {events : List Event} (h : Removals l events l') :
    l'.records.Sublist l.records := by
  induction h with
  | nil l => exact List.Sublist.refl _
  | cons hdelete _ ih => exact ih.trans (sublist_delete hdelete)

/-- The records of a name after an insert: the first one, or the next one. -/
theorem Paired.rotated_save {l l' : Ledger} {c : Credential} (hpaired : l.Paired)
    (hmax : ∀ d ∈ l.records, d.version ≠ Int32.maxValue)
    (hone : (under c.channelName l.records).length ≤ 1)
    (hversion : c.version = nextVersion (under c.channelName l.records))
    (hfresh : ∀ d ∈ under c.channelName l.records, d.token ≠ c.token)
    (hsave : l.save c = .ok l') : Rotated (under c.channelName l'.records) := by
  have hbefore := hpaired c.channelName
  have hafter := under_save_of_lt hsave
  cases hfound : under c.channelName l.records with
  | nil =>
      rw [hfound] at hversion hafter
      rw [hafter (by simp)]
      exact Rotated.one (hversion ▸ Int32.le_refl 0)
  | cons a rest =>
      rw [hfound] at hone hversion hfresh hafter hbefore
      obtain rfl : rest = [] := by simpa using hone
      have ha : a ∈ under c.channelName l.records := by
        rw [hfound]
        exact List.mem_cons_self
      have hnext : c.version.toInt = a.version.toInt + 1 := by
        rw [hversion]
        exact toInt_add_one (hmax a (mem_under.1 ha).1)
      have hlt : a.version < c.version := by
        rw [Int32.lt_iff_toInt_lt]
        omega
      rw [hafter (by simpa using hlt)]
      exact Rotated.two (hbefore.version_nonneg a List.mem_cons_self) hnext
        (hfresh a List.mem_cons_self)

/-- What a visit does keeps the records of every name as they should be. -/
theorem Paired.serves {l l' : Ledger} {events : List Event} (hpaired : l.Paired)
    (hmax : ∀ c ∈ l.records, c.version ≠ Int32.maxValue) (h : l.Serves events l') :
    l'.Paired := by
  intro name
  cases h with
  | @issues _ c hone hversion hfresh hsave =>
      by_cases hname : c.channelName = name
      · subst hname
        exact hpaired.rotated_save hmax hone hversion hfresh hsave
      · rw [under_save_of_ne hsave hname]
        exact hpaired name
  | removes hremovals =>
      exact (hpaired name).of_sublist (hremovals.sublist.filter _)

/-- A visit raises the greatest version by one at most. -/
theorem Serves.version_lt {l l' : Ledger} {events : List Event} {n : Nat}
    (h : l.Serves events l') (hn : (n : Int) ≤ Int32.maxValue.toInt)
    (hlt : ∀ c ∈ l.records, c.version.toInt < n) :
    ∀ c ∈ l'.records, c.version.toInt < (n + 1 : Nat) := by
  intro d hd
  cases h with
  | @issues _ c hone hversion hfresh hsave =>
      rcases (mem_save hsave).1 hd with rfl | hold
      · rw [hversion]
        cases hfound : under d.channelName l.records with
        | nil =>
            show (0 : Int32).toInt < _
            rw [show (0 : Int32).toInt = 0 from rfl]
            omega
        | cons a rest =>
            have ha : a ∈ under d.channelName l.records := by
              rw [hfound]
              exact List.mem_cons_self
            have hbound := hlt a (mem_under.1 ha).1
            have hmax : a.version ≠ Int32.maxValue := by
              intro heq
              rw [heq] at hbound
              omega
            rw [nextVersion, toInt_add_one hmax]
            omega
      · have hbound := hlt d hold
        omega
  | removes hremovals =>
      have hbound := hlt d (hremovals.sublist.subset hd)
      omega

end Ledger

namespace Surroundings

theorem visited_cons (s : Surroundings) (v : Visit) (visits : List Visit) :
    s.visited (v :: visits) = (v.leave s).visited visits :=
  rfl

/-- The invariant holds after any visits, as long as versions can be counted. -/
theorem paired_visited {s : Surroundings} {l : Ledger} (hstore : s.store = .ledger .plain l)
    (hpaired : l.Paired) {visits : List Visit}
    (hmax : ∀ before, before <+: visits → ∀ c ∈ (s.visited before).store.records,
      c.version ≠ Int32.maxValue) :
    ∃ l', (s.visited visits).store = .ledger .plain l' ∧ l'.Paired := by
  induction visits generalizing s l with
  | nil => exact ⟨l, hstore, hpaired⟩
  | cons v visits ih =>
      obtain ⟨m, hm, hserves⟩ := v.serves hstore
      have hfirst : ∀ c ∈ l.records, c.version ≠ Int32.maxValue := by
        intro c hc
        refine hmax [] List.nil_prefix c ?_
        rw [show (s.visited []).store = .ledger .plain l from hstore]
        exact hc
      rw [visited_cons]
      refine ih hm (hpaired.serves hfirst hserves) fun before hbefore => ?_
      exact hmax (v :: before) (List.cons_prefix_cons.2 ⟨rfl, hbefore⟩)

/-- Versions stay below the number of visits. -/
theorem version_lt_visited {s : Surroundings} {l : Ledger} {n : Nat}
    (hstore : s.store = .ledger .plain l) (hlt : ∀ c ∈ l.records, c.version.toInt < n)
    {visits : List Visit} (hlength : (n + visits.length : Nat) ≤ Int32.maxValue.toInt) :
    ∀ c ∈ (s.visited visits).store.records, c.version.toInt < (n + visits.length : Nat) := by
  induction visits generalizing s l n with
  | nil =>
      rw [show (s.visited []).store = .ledger .plain l from hstore]
      exact hlt
  | cons v visits ih =>
      obtain ⟨m, hm, hserves⟩ := v.serves hstore
      rw [List.length_cons] at hlength ⊢
      have hnext := hserves.version_lt (by omega) hlt
      have hrest := ih hm hnext (by omega)
      rw [visited_cons, show n + (visits.length + 1) = n + 1 + visits.length by omega]
      exact hrest

/-- No version is the greatest one before as many visits as there are versions. -/
theorem no_version_at_max (tokens : List (Option String)) {visits : List Visit}
    (hlength : visits.length ≤ Int32.maxValue.toInt) :
    ∀ before, before <+: visits → ∀ c ∈ ((fresh tokens).visited before).store.records,
      c.version ≠ Int32.maxValue := by
  intro before hbefore c hc heq
  have hle := hbefore.length_le
  have hbound : (0 + before.length : Nat) ≤ Int32.maxValue.toInt := by omega
  have hlt := version_lt_visited (s := fresh tokens) (n := 0) rfl (by simp [Ledger.empty])
    hbound c hc
  rw [heq] at hlt
  omega

/-- After any visits, with any script of tokens and in whatever state the chat service
was each time: a name has two records at most, no version is negative, and two records
have different tokens and versions that follow each other. -/
theorem records_paired (tokens : List (Option String)) (visits : List Visit)
    (hmax : ∀ before, before <+: visits →
      ∀ c ∈ ((fresh tokens).visited before).store.records, c.version ≠ Int32.maxValue)
    (name : String) :
    let found := under name ((fresh tokens).visited visits).store.records
    found.length ≤ Rotation.maxTokens ∧ (∀ c ∈ found, 0 ≤ c.version) ∧
      ∀ a b, found = [a, b] →
        a.token ≠ b.token ∧ b.version.toInt = a.version.toInt + 1 := by
  intro found
  obtain ⟨l, hstore, hpaired⟩ := paired_visited (s := fresh tokens) rfl Ledger.paired_empty hmax
  have hrotated : Rotated found := by
    show Rotated (under name ((fresh tokens).visited visits).store.records)
    rw [hstore]
    exact hpaired name
  refine ⟨hrotated.length_le, hrotated.version_nonneg, ?_⟩
  intro a b hfound
  rw [hfound] at hrotated
  cases hrotated with
  | two hversion hnext htoken => exact ⟨htoken, hnext⟩

/-- A first token, a rotation that draws the same token first, a revocation of the older
token, another rotation, and a pass that cannot list the channels. -/
def rotations : List Visit :=
  let chat : Chat := .directory ⟨[], some "down", []⟩
  [⟨.issue .epoch "C1" "ci", chat⟩, ⟨.add .epoch "C1" "ci", chat⟩, ⟨.revoke "ci" "a", chat⟩,
    ⟨.add .epoch "C1" "ci", chat⟩, ⟨.pass "ops", chat⟩]

theorem records_paired_rotations :
    let s := fresh [some "a", some "a", some "b", some "c"]
    let found := under "ci" (s.visited rotations).store.records
    (∀ before, before <+: rotations → ∀ c ∈ (s.visited before).store.records,
      c.version ≠ Int32.maxValue) ∧
    found.map Credential.token = ["b", "c"] ∧
    found.length ≤ Rotation.maxTokens ∧ (∀ c ∈ found, 0 ≤ c.version) ∧
      ∀ a b, found = [a, b] →
        a.token ≠ b.token ∧ b.version.toInt = a.version.toInt + 1 := by
  have hmax := no_version_at_max [some "a", some "a", some "b", some "c"]
    (show (rotations.length : Int) ≤ Int32.maxValue.toInt by decide)
  refine ⟨hmax, ?_, records_paired _ rotations hmax "ci"⟩
  cbv

end Surroundings

end ChannelRelay
