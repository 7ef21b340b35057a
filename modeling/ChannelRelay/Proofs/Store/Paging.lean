import ChannelRelay.Proofs.Store.Contents
import ChannelRelay.Store.Table

/-!
# Pages

A full read of the table asks for page after page.  Since the rows stand in the order of
their keys, the rows after the last one of a full page are the rows that the page left
out (`filter_after`), so `m` rows are read in `m / 500 + 1` pages: a page that is not full
comes last, and it is empty if `m` is a multiple of 500.  A statement that is refused ends
the read (`reads_from`).
-/

namespace ChannelRelay.Table

/-- The code of the first refusal that the next `n` statements meet. -/
def refused? (t : Table) (n : Nat) : Option String :=
  (t.faults.take n).findSome? id

section Statements

variable {t : Table} {s : Statement} {code : String}

theorem send_eq (t : Table) (s : Statement) :
    t.send s = (t.refused? 1, ⟨t.rows, t.faults.drop 1, s :: t.sent⟩) := by
  obtain ⟨rows, faults, sent⟩ := t
  cases faults with
  | nil => rfl
  | cons fault faults => cases fault <;> rfl

/-- The first refusal among some statements is that of the first one, or else that of the
others. -/
theorem refused?_succ (t : Table) (s : Statement) (n : Nat) :
    t.refused? (n + 1) = (t.refused? 1).or ((t.send s).2.refused? n) := by
  obtain ⟨rows, faults, sent⟩ := t
  cases faults with
  | nil => simp [refused?, send]
  | cons fault faults => cases fault <;> rfl

theorem page_of_refused (h : t.refused? 1 = some code) (after : Key) :
    t.page after = (.error (refusal code), (t.send (.page after pageSize)).2) := by
  simp [page, send_eq, h]

theorem page_of_sent (h : t.refused? 1 = none) (after : Key) :
    t.page after = (.ok (rowsAfter t.rows after), (t.send (.page after pageSize)).2) := by
  simp [page, send_eq, h]

end Statements

/-! ## The rows of a page -/

/-- The rows after a row are those that follow it. -/
theorem filter_after {before after : List Credential} {c : Credential}
    (hsorted : (before ++ c :: after).Pairwise Credential.Precedes) :
    (before ++ c :: after).filter (fun d => c.key.Before d.key) = after := by
  obtain ⟨-, hlater, hcross⟩ := List.pairwise_append.1 hsorted
  have hbefore : before.filter (fun d => decide (c.key.Before d.key)) = [] := by
    refine List.filter_eq_nil_iff.2 fun d hd => ?_
    have hdc : d.key.Before c.key := hcross d hd c List.mem_cons_self
    have hnot : ¬ c.key.Before d.key := fun h => Key.not_before_self c.key (h.trans hdc)
    simpa using hnot
  have hafter : after.filter (fun d => decide (c.key.Before d.key)) = after := by
    refine List.filter_eq_self.2 fun d hd => ?_
    simpa using (List.pairwise_cons.1 hlater).1 d hd
  rw [List.filter_append, hbefore, List.nil_append, List.filter_cons_of_neg, hafter]
  simpa using Key.not_before_self c.key

/-- All rows after a key. -/
def restAfter (rows : Ledger) (after : Key) : List Credential :=
  rows.records.filter fun c => after.Before c.key

theorem rowsAfter_eq (rows : Ledger) (after : Key) :
    rowsAfter rows after = (restAfter rows after).take pageSize :=
  rfl

/-- A page that is not full is the last one. -/
theorem nextStart?_of_short {rows : Ledger} {after : Key}
    (h : (restAfter rows after).length < pageSize) :
    nextStart? (rowsAfter rows after) = none := by
  have hlength : (rowsAfter rows after).length < pageSize := by
    rw [rowsAfter_eq, List.take_of_length_le (Nat.le_of_lt h)]
    exact h
  simp [nextStart?, hlength]

/-- A full page is followed by the rows that it left out. -/
theorem exists_nextStart? {rows : Ledger} {after : Key}
    (h : pageSize ≤ (restAfter rows after).length) :
    ∃ next, nextStart? (rowsAfter rows after) = some next ∧
      restAfter rows next = (restAfter rows after).drop pageSize := by
  have hlength : (rowsAfter rows after).length = pageSize := by
    rw [rowsAfter_eq, List.length_take, Nat.min_eq_left h]
  have hne : rowsAfter rows after ≠ [] := by
    intro hnil
    rw [hnil] at hlength
    exact absurd hlength (by decide)
  obtain ⟨before, c, hpage⟩ := (List.eq_nil_or_concat _).resolve_left hne
  have hsplit : restAfter rows after =
      before ++ c :: (restAfter rows after).drop pageSize := by
    rw [List.append_cons, ← List.concat_eq_append, ← hpage, rowsAfter_eq, List.take_append_drop]
  have hafter : after.Before c.key := by
    have hc : c ∈ restAfter rows after := by
      rw [hsplit]
      exact List.mem_append_right _ List.mem_cons_self
    simpa using (List.mem_filter.1 hc).2
  refine ⟨c.key, ?_, ?_⟩
  · have hfull : ¬ (rowsAfter rows after).length < pageSize := by omega
    rw [nextStart?, if_neg hfull, hpage]
    simp
  · -- What comes after the row comes after the start of its page.
    have hsame : restAfter rows c.key =
        (restAfter rows after).filter fun d => c.key.Before d.key := by
      rw [restAfter, restAfter, List.filter_filter]
      refine List.filter_congr fun d _ => ?_
      by_cases hd : c.key.Before d.key
      · simp [hd, hafter.trans hd]
      · simp [hd]
    have hsorted : (restAfter rows after).Pairwise Credential.Precedes :=
      rows.ascending.filter _
    generalize (restAfter rows after).drop pageSize = left at hsplit ⊢
    rw [hsplit] at hsorted
    rw [hsame, hsplit, filter_after hsorted]

/-! ## Whole reads -/

theorem scanFrom_of_refused {t : Table} {code : String} (done : List Credential) (after : Key)
    (h : t.refused? 1 = some code) :
    t.scanFrom done after = (.error (refusal code), (t.send (.page after pageSize)).2) := by
  have hpage := page_of_refused h after
  rw [scanFrom]
  split
  · rename_i e he
    rw [hpage] at he ⊢
    rw [← Except.error.inj he]
  · rename_i rows hrows
    rw [hpage] at hrows
    exact absurd hrows (by simp)

theorem scanFrom_of_sent {t : Table} (done : List Credential) (after : Key)
    (h : t.refused? 1 = none) :
    t.scanFrom done after =
      match nextStart? (rowsAfter t.rows after) with
      | none => (.ok (done ++ rowsAfter t.rows after), (t.send (.page after pageSize)).2)
      | some next => (t.send (.page after pageSize)).2.scanFrom
          (done ++ rowsAfter t.rows after) next := by
  have hpage := page_of_sent h after
  rw [scanFrom]
  split
  · rename_i e he
    rw [hpage] at he
    exact absurd he (by simp)
  · rename_i rows hrows
    rw [hpage] at hrows
    obtain rfl := Except.ok.inj hrows
    rw [hpage]
    split
    · rename_i hnext
      rw [hnext]
    · rename_i next hnext
      rw [hnext]

/-- A read from a key on gives all rows after it and sends `n` statements, one for each
page; if one of these is refused, that is the end of the read. -/
structure Reads (t : Table) (done : List Credential) (after : Key) (n : Nat) : Prop where
  rows : (t.scanFrom done after).2.rows = t.rows
  ok : t.refused? n = none →
    (t.scanFrom done after).1 = .ok (done ++ restAfter t.rows after) ∧
    (t.scanFrom done after).2.faults = t.faults.drop n ∧
    ∃ pages, (t.scanFrom done after).2.sent = pages ++ t.sent ∧ pages.length = n ∧
      ∀ s ∈ pages, ∃ start, s = .page start pageSize
  error : ∀ code, t.refused? n = some code → (t.scanFrom done after).1 = .error (refusal code)

section Reads

variable {t : Table} {done : List Credential} {after : Key} {n : Nat}

theorem reads_of_refused {code : String} (h : t.refused? 1 = some code) :
    t.Reads done after (n + 1) := by
  have hfirst : t.refused? (n + 1) = some code := by
    rw [refused?_succ t (.page after pageSize), h]
    rfl
  have hscan := scanFrom_of_refused done after h
  constructor
  · rw [hscan]
    rfl
  · intro hnone
    exact absurd (hfirst.symm.trans hnone) (by simp)
  · intro code' hcode
    rw [hscan, ← Option.some.inj (hfirst.symm.trans hcode)]

theorem reads_of_short (h : t.refused? 1 = none)
    (hshort : (restAfter t.rows after).length < pageSize) : t.Reads done after 1 := by
  have hpage : rowsAfter t.rows after = restAfter t.rows after :=
    List.take_of_length_le (Nat.le_of_lt hshort)
  have hscan := scanFrom_of_sent done after h
  rw [nextStart?_of_short hshort, hpage] at hscan
  constructor
  · rw [hscan]
    rfl
  · intro _
    rw [hscan]
    refine ⟨rfl, rfl, [.page after pageSize], rfl, rfl, ?_⟩
    intro s hs
    exact ⟨after, List.mem_singleton.1 hs⟩
  · intro code hcode
    exact absurd (h.symm.trans hcode) (by simp)

theorem reads_of_full {next : Key} (h : t.refused? 1 = none)
    (hnext : nextStart? (rowsAfter t.rows after) = some next)
    (hrest : restAfter t.rows next = (restAfter t.rows after).drop pageSize)
    (hreads : (t.send (.page after pageSize)).2.Reads (done ++ rowsAfter t.rows after) next n) :
    t.Reads done after (n + 1) := by
  have hothers : t.refused? (n + 1) = (t.send (.page after pageSize)).2.refused? n := by
    rw [refused?_succ t (.page after pageSize), h]
    rfl
  have hscan := scanFrom_of_sent done after h
  rw [hnext] at hscan
  constructor
  · rw [hscan]
    exact hreads.rows
  · intro hnone
    obtain ⟨hresult, hfaults, pages, hsent, hcount, hpages⟩ := hreads.ok (hothers ▸ hnone)
    rw [hscan]
    refine ⟨?_, ?_, pages ++ [.page after pageSize], ?_, ?_, ?_⟩
    · rw [hresult]
      show Except.ok (_ ++ restAfter t.rows next) = _
      rw [hrest, List.append_assoc, rowsAfter_eq, List.take_append_drop]
    · rw [hfaults]
      show (t.faults.drop 1).drop n = _
      rw [List.drop_drop, Nat.add_comm]
    · rw [hsent, List.append_assoc]
      rfl
    · rw [List.length_append, hcount, List.length_singleton]
    · intro s hs
      rcases List.mem_append.1 hs with hs | hs
      · exact hpages s hs
      · exact ⟨after, List.mem_singleton.1 hs⟩
  · intro code hcode
    rw [hscan]
    exact hreads.error code (hothers ▸ hcode)

/-- There is one page more than there are full pages. -/
theorem reads_from (t : Table) (done : List Credential) (after : Key) :
    t.Reads done after ((restAfter t.rows after).length / pageSize + 1) := by
  have hpositive : 0 < pageSize := by decide
  -- By induction on the number of full pages.
  generalize hn : (restAfter t.rows after).length / pageSize = n
  induction n generalizing t done after with
  | zero =>
      have hshort : (restAfter t.rows after).length < pageSize := by
        rcases Nat.div_eq_zero_iff.1 hn with hzero | hlt
        · omega
        · exact hlt
      cases hrefused : t.refused? 1 with
      | some code => exact reads_of_refused hrefused
      | none => exact reads_of_short hrefused hshort
  | succ n ih =>
      have hfull : pageSize ≤ (restAfter t.rows after).length := by
        refine Nat.le_of_not_lt fun hlt => ?_
        rw [Nat.div_eq_of_lt hlt] at hn
        omega
      obtain ⟨next, hnext, hrest⟩ := exists_nextStart? hfull
      have hlength : (restAfter t.rows next).length / pageSize = n := by
        have hless := Nat.div_eq_sub_div hpositive hfull
        rw [hrest, List.length_drop]
        omega
      cases hrefused : t.refused? 1 with
      | some code => exact reads_of_refused hrefused
      | none => exact reads_of_full hrefused hnext hrest (ih _ _ next hlength)

end Reads

/-- A full read starts after the first of all keys, and so it passes over that key alone. -/
theorem scanStart_before_iff {k : Key} : scanStart.Before k ↔ k ≠ scanStart := by
  constructor
  · intro hbefore
    exact (Key.ne_of_before hbefore).symm
  · intro hne
    refine Key.before_of_not_before hne fun hbefore => ?_
    exact List.not_lt_nil _ (Key.before_first_iff.1 hbefore)

theorem scanStart_before {k : Key} (h : 0 ≤ k.version) : scanStart.Before k := by
  rw [scanStart_before_iff]
  rintro rfl
  exact absurd h (by decide)

/-- Only a row under the first of all keys is left out. -/
theorem restAfter_scanStart_eq (rows : Ledger) :
    restAfter rows scanStart = rows.records.filter fun c => c.key ≠ scanStart :=
  List.filter_congr fun _ _ => decide_eq_decide.2 scanStart_before_iff

theorem restAfter_scanStart {rows : Ledger} (h : ∀ c ∈ rows.records, 0 ≤ c.version) :
    restAfter rows scanStart = rows.records :=
  List.filter_eq_self.2 fun c hc => by simpa using scanStart_before (h c hc)

/-- A full read of rows with versions that are not negative. -/
theorem reads_all {t : Table} (h : ∀ c ∈ t.rows.records, 0 ≤ c.version) :
    t.Reads [] scanStart (t.rows.size / pageSize + 1) := by
  have hreads := t.reads_from [] scanStart
  rw [restAfter_scanStart h] at hreads
  exact hreads

end ChannelRelay.Table
