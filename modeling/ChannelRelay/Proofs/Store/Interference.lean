import ChannelRelay.Proofs.Store.Statements
import Mathlib

/-!
# Full reads while others write

Each page of a full read is one statement, so other clients may insert and delete rows
between two pages.  A `SharedTable` is a table on which one full read is under way; its
moves are the page statements of the read and the writes of the others, in any order.

Rows come and go on both sides of the key that the next page starts after, so a page may be
full or short because of them.  What the read keeps from page to page is `Progress`: all that
it has is ascending and does not lie after that key, and it has every row up to that key that
was there whenever it looked.  `read_amid_writes` follows for the read as a whole.

Without the writes of others the moves are the steps of `scanFrom` (`exists_read_alone`).
-/

namespace ChannelRelay

namespace Key

/-- What lies not after a key comes before all that lies after it. -/
theorem before_of_not_after {a b c : Key} (hb : ¬ a.Before b) (hc : a.Before c) : b.Before c := by
  by_cases hsame : a = b
  · exact hsame ▸ hc
  · exact (before_of_not_before hsame hb).trans hc

end Key

namespace Table

/-! ## Between two pages -/

/-- A page that is followed by none holds all rows after its start. -/
theorem rowsAfter_of_last {rows : Ledger} {after : Key}
    (h : nextStart? (rowsAfter rows after) = none) :
    rowsAfter rows after = restAfter rows after := by
  by_cases hshort : (restAfter rows after).length < pageSize
  · exact List.take_of_length_le (Nat.le_of_lt hshort)
  · obtain ⟨next, hnext, -⟩ := exists_nextStart? (Nat.le_of_not_lt hshort)
    exact absurd (h.symm.trans hnext) (by simp)

theorem mem_restAfter {rows : Ledger} {after : Key} {c : Credential} :
    c ∈ restAfter rows after ↔ c ∈ rows.records ∧ after.Before c.key := by
  simp [restAfter]

/-- The next page starts after the start of a page. -/
theorem before_next {rows : Ledger} {after next : Key}
    (h : nextStart? (rowsAfter rows after) = some next) : after.Before next := by
  unfold nextStart? at h
  split at h
  · exact absurd h (by simp)
  · obtain ⟨c, hlast, rfl⟩ := Option.map_eq_some_iff.1 h
    exact (mem_restAfter.1 (List.mem_of_mem_take (List.mem_of_getLast? hlast))).2

/-- A full page holds the rows between its start and the start of the next page. -/
theorem mem_rowsAfter_iff {rows : Ledger} {after next : Key} {c : Credential}
    (h : nextStart? (rowsAfter rows after) = some next) :
    c ∈ rowsAfter rows after ↔
      c ∈ rows.records ∧ after.Before c.key ∧ ¬ next.Before c.key := by
  have hfull : pageSize ≤ (restAfter rows after).length := by
    refine Nat.le_of_not_lt fun hshort => ?_
    exact absurd ((nextStart?_of_short hshort).symm.trans h) (by simp)
  obtain ⟨next', hnext, hrest⟩ := exists_nextStart? hfull
  obtain rfl : next' = next := Option.some.inj (hnext.symm.trans h)
  have hsplit := List.take_append_drop pageSize (restAfter rows after)
  rw [← rowsAfter_eq, ← hrest] at hsplit
  -- No row of the page is among those that it left out.
  have hnodup : (rowsAfter rows after ++ restAfter rows next').Nodup := by
    rw [hsplit]
    exact rows.nodup.filter _
  constructor
  · intro hc
    obtain ⟨hmem, hafter⟩ := mem_restAfter.1 (List.mem_of_mem_take hc)
    refine ⟨hmem, hafter, fun hlater => ?_⟩
    exact (List.nodup_append.1 hnodup).2.2 c hc c (mem_restAfter.2 ⟨hmem, hlater⟩) rfl
  · rintro ⟨hmem, hafter, hnot⟩
    have hc : c ∈ rowsAfter rows after ++ restAfter rows next' := by
      rw [hsplit]
      exact mem_restAfter.2 ⟨hmem, hafter⟩
    rcases List.mem_append.1 hc with hc | hc
    · exact hc
    · exact absurd (mem_restAfter.1 hc).2 hnot

end Table

/-- How far a full read is. -/
inductive Reading where
  /-- The next page starts after `after`; `done` holds the rows of the pages before. -/
  | under (done : List Credential) (after : Key)
  | ended (result : Except StoreError (List Credential))

/-- How a read goes on after the answer to a page statement. -/
def Reading.take (done : List Credential) : Except StoreError (List Credential) → Reading
  | .error e => .ended (.error e)
  | .ok page =>
    match Table.nextStart? page with
    | none => .ended (.ok (done ++ page))
    | some next => .under (done ++ page) next

/-- A page, with the rows that the table had when it was read. -/
structure PageRead where
  rows : Ledger
  page : List Credential

/-- A table on which one full read is under way. -/
structure SharedTable where
  table : Table
  reading : Reading
  /-- The pages that were read. -/
  pages : List PageRead

/-- A statement on a shared table. -/
inductive SharedTable.Move where
  /-- The next page of the read; none if the read has ended. -/
  | page
  /-- Another client inserts a record. -/
  | insert (c : Credential)
  /-- Another client deletes a record. -/
  | delete (c : Credential)

namespace SharedTable

/-- A full read that has not begun. -/
def start (t : Table) : SharedTable := ⟨t, .under [] Table.scanStart, []⟩

/-- The page statement of a read. -/
def turn (s : SharedTable) : SharedTable :=
  match s.reading with
  | .ended _ => s
  | .under done after =>
    { table := (s.table.page after).2
      reading := .take done (s.table.page after).1
      pages :=
        match (s.table.page after).1 with
        | .error _ => s.pages
        | .ok page => s.pages ++ [⟨s.table.rows, page⟩] }

def step (s : SharedTable) : Move → SharedTable
  | .page => s.turn
  | .insert c => { s with table := (s.table.save c).2 }
  | .delete c => { s with table := (s.table.delete c).2 }

def run (s : SharedTable) (moves : List Move) : SharedTable :=
  moves.foldl step s

section Turn

variable {t : Table} {done page : List Credential} {after next : Key} {pages : List PageRead}

theorem turn_of_refused {e : StoreError} (hpage : (t.page after).1 = .error e) :
    turn ⟨t, .under done after, pages⟩ = ⟨(t.page after).2, .ended (.error e), pages⟩ := by
  simp only [turn, hpage, Reading.take]

theorem turn_of_last (hpage : (t.page after).1 = .ok page)
    (hnext : Table.nextStart? page = none) :
    turn ⟨t, .under done after, pages⟩ =
      ⟨(t.page after).2, .ended (.ok (done ++ page)), pages ++ [⟨t.rows, page⟩]⟩ := by
  simp only [turn, hpage, Reading.take, hnext]

theorem turn_of_full (hpage : (t.page after).1 = .ok page)
    (hnext : Table.nextStart? page = some next) :
    turn ⟨t, .under done after, pages⟩ =
      ⟨(t.page after).2, .under (done ++ page) next, pages ++ [⟨t.rows, page⟩]⟩ := by
  simp only [turn, hpage, Reading.take, hnext]

end Turn

/-! ## The read alone -/

/-- One page of `scanFrom` is one turn of a read. -/
theorem scanFrom_eq (t : Table) (done : List Credential) (after : Key) :
    t.scanFrom done after =
      match Reading.take done (t.page after).1 with
      | .ended result => (result, (t.page after).2)
      | .under done next => (t.page after).2.scanFrom done next := by
  cases hrefused : t.refused? 1 with
  | some code =>
      rw [Table.scanFrom_of_refused done after hrefused, Table.page_of_refused hrefused after]
      rfl
  | none =>
      rw [Table.scanFrom_of_sent done after hrefused, Table.page_of_sent hrefused after]
      simp only [Reading.take]
      cases Table.nextStart? (Table.rowsAfter t.rows after) <;> rfl

/-- Alone, a read goes on to its end as `scanFrom` does. -/
theorem exists_read_alone (t : Table) (done : List Credential) (after : Key)
    (pages : List PageRead) :
    ∃ n more, run ⟨t, .under done after, pages⟩ (List.replicate n .page) =
      ⟨(t.scanFrom done after).2, .ended (t.scanFrom done after).1, pages ++ more⟩ := by
  induction t, done, after using Table.scanFrom.induct generalizing pages with
  | case1 t done after e hpage =>
      refine ⟨1, [], ?_⟩
      rw [scanFrom_eq, hpage, List.append_nil]
      exact turn_of_refused hpage
  | case2 t done after page hpage hlast =>
      refine ⟨1, [⟨t.rows, page⟩], ?_⟩
      rw [scanFrom_eq, hpage]
      simp only [Reading.take, hlast]
      exact turn_of_last hpage hlast
  | case3 t done after page hpage next hnext ih =>
      obtain ⟨n, more, hrun⟩ := ih (pages ++ [⟨t.rows, page⟩])
      refine ⟨n + 1, ⟨t.rows, page⟩ :: more, ?_⟩
      rw [scanFrom_eq, hpage, List.append_cons]
      simp only [Reading.take, hnext]
      rw [← hrun, ← turn_of_full hpage hnext]
      rfl

/-! ## What a read keeps -/

/-- What a read that starts its next page after a key has so far: the rows of its pages, in
ascending order and none after the key, and with them every row up to the key that was there
at each page. -/
structure Progress (pages : List PageRead) (done : List Credential) (after : Key) : Prop where
  rows : done = pages.flatMap PageRead.page
  ascending : done.Pairwise Credential.Precedes
  behind : ∀ c ∈ done, ¬ after.Before c.key
  passed : ∀ c, (∀ p ∈ pages, c ∈ p.rows.records) → Table.scanStart.Before c.key →
    ¬ after.Before c.key → c ∈ done

/-- What a read has at its end. -/
structure Complete (pages : List PageRead) (found : List Credential) : Prop where
  rows : found = pages.flatMap PageRead.page
  ascending : found.Pairwise Credential.Precedes
  passed : ∀ c, (∀ p ∈ pages, c ∈ p.rows.records) → Table.scanStart.Before c.key → c ∈ found

/-- The pages of a read hold rows of their moment, and the read has what it should have. -/
structure Sound (s : SharedTable) : Prop where
  held : ∀ p ∈ s.pages, ∀ c ∈ p.page, c ∈ p.rows.records
  under : ∀ done after, s.reading = .under done after → Progress s.pages done after
  ended : ∀ found, s.reading = .ended (.ok found) → Complete s.pages found

theorem progress_start : Progress [] [] Table.scanStart where
  rows := rfl
  ascending := List.Pairwise.nil
  behind := fun _ hc => absurd hc List.not_mem_nil
  passed := fun _ _ hstart hnot => absurd hstart hnot

theorem sound_start (t : Table) : (start t).Sound where
  held := fun _ hp => absurd hp List.not_mem_nil
  under := by
    rintro done after h
    obtain ⟨rfl, rfl⟩ := Reading.under.inj h
    exact progress_start
  ended := fun _ h => absurd h (by simp [start])

section Page

variable {pages : List PageRead} {done : List Credential} {after : Key}

/-- What the next page adds comes after what there is. -/
theorem Progress.ascending_append (h : Progress pages done after) (rows : Ledger) :
    (done ++ Table.rowsAfter rows after).Pairwise Credential.Precedes := by
  refine List.pairwise_append.2 ⟨h.ascending, ?_, ?_⟩
  · exact (rows.ascending.filter _).sublist (List.take_sublist _ _)
  · intro c hc d hd
    exact Key.before_of_not_after (h.behind c hc)
      (Table.mem_restAfter.1 (List.mem_of_mem_take hd)).2

theorem flatMap_page (h : Progress pages done after) (rows : Ledger) (page : List Credential) :
    done ++ page = (pages ++ [(⟨rows, page⟩ : PageRead)]).flatMap PageRead.page := by
  rw [List.flatMap_append, ← h.rows, List.flatMap_singleton]

/-- The last page completes a read. -/
theorem Progress.complete (h : Progress pages done after) {rows : Ledger}
    (hlast : Table.nextStart? (Table.rowsAfter rows after) = none) :
    Complete (pages ++ [⟨rows, Table.rowsAfter rows after⟩])
      (done ++ Table.rowsAfter rows after) where
  rows := flatMap_page h rows _
  ascending := h.ascending_append rows
  passed := by
    intro c hc hstart
    by_cases hafter : after.Before c.key
    · refine List.mem_append_right _ ?_
      rw [Table.rowsAfter_of_last hlast]
      have hthere := hc _ (List.mem_append_right _ List.mem_cons_self)
      exact Table.mem_restAfter.2 ⟨hthere, hafter⟩
    · exact List.mem_append_left _
        (h.passed c (fun p hp => hc p (List.mem_append_left _ hp)) hstart hafter)

/-- A full page takes a read to the key of its last row. -/
theorem Progress.next (h : Progress pages done after) {rows : Ledger} {next : Key}
    (hnext : Table.nextStart? (Table.rowsAfter rows after) = some next) :
    Progress (pages ++ [⟨rows, Table.rowsAfter rows after⟩])
      (done ++ Table.rowsAfter rows after) next where
  rows := flatMap_page h rows _
  ascending := h.ascending_append rows
  behind := by
    intro c hc hlater
    rcases List.mem_append.1 hc with hc | hc
    · exact h.behind c hc ((Table.before_next hnext).trans hlater)
    · exact ((Table.mem_rowsAfter_iff hnext).1 hc).2.2 hlater
  passed := by
    intro c hc hstart hnot
    by_cases hafter : after.Before c.key
    · have hthere := hc _ (List.mem_append_right _ List.mem_cons_self)
      exact List.mem_append_right _ ((Table.mem_rowsAfter_iff hnext).2 ⟨hthere, hafter, hnot⟩)
    · exact List.mem_append_left _
        (h.passed c (fun p hp => hc p (List.mem_append_left _ hp)) hstart hafter)

end Page

theorem sound_turn {s : SharedTable} (h : s.Sound) : s.turn.Sound := by
  obtain ⟨t, reading, pages⟩ := s
  cases reading with
  | ended result => exact h
  | under done after =>
      have hprogress := h.under done after rfl
      cases hpage : (t.page after).1 with
      | error e =>
          rw [turn_of_refused hpage]
          exact ⟨h.held, fun _ _ heq => absurd heq (by simp), fun _ heq => absurd heq (by simp)⟩
      | ok page =>
          obtain rfl := Table.page_eq_rowsAfter hpage
          have hheld : ∀ p ∈ pages ++ [⟨t.rows, Table.rowsAfter t.rows after⟩],
              ∀ c ∈ p.page, c ∈ p.rows.records := by
            intro p hp c hc
            rcases List.mem_append.1 hp with hp | hp
            · exact h.held p hp c hc
            · obtain rfl := List.mem_singleton.1 hp
              exact (Table.mem_restAfter.1 (List.mem_of_mem_take hc)).1
          cases hnext : Table.nextStart? (Table.rowsAfter t.rows after) with
          | none =>
              rw [turn_of_last hpage hnext]
              refine ⟨hheld, fun _ _ heq => absurd heq (by simp), fun found heq => ?_⟩
              obtain rfl := Except.ok.inj (Reading.ended.inj heq)
              exact hprogress.complete hnext
          | some next =>
              rw [turn_of_full hpage hnext]
              refine ⟨hheld, fun found later heq => ?_, fun _ heq => absurd heq (by simp)⟩
              obtain ⟨rfl, rfl⟩ := Reading.under.inj heq
              exact hprogress.next hnext

/-- The writes of others touch nothing of what was read. -/
theorem sound_step {s : SharedTable} (h : s.Sound) (m : Move) : (s.step m).Sound := by
  cases m with
  | page => exact sound_turn h
  | insert c => exact ⟨h.held, h.under, h.ended⟩
  | delete c => exact ⟨h.held, h.under, h.ended⟩

theorem sound_run {s : SharedTable} (h : s.Sound) (moves : List Move) : (s.run moves).Sound := by
  induction moves generalizing s with
  | nil => exact h
  | cons m moves ih => exact ih (sound_step h m)

/-- A read ends when the others write no more. -/
theorem exists_ended (t : Table) (moves : List Move) :
    ∃ n result, ((start t).run (moves ++ List.replicate n .page)).reading = .ended result := by
  obtain ⟨⟨t', reading, pages⟩, hreached⟩ : ∃ s, (start t).run moves = s := ⟨_, rfl⟩
  have hrun : ∀ n, (start t).run (moves ++ List.replicate n .page) =
      run ⟨t', reading, pages⟩ (List.replicate n .page) := by
    intro n
    rw [← hreached]
    exact List.foldl_append
  cases reading with
  | ended result =>
      refine ⟨0, result, ?_⟩
      rw [hrun]
      rfl
  | under done after =>
      obtain ⟨n, more, halone⟩ := exists_read_alone t' done after pages
      refine ⟨n, (t'.scanFrom done after).1, ?_⟩
      rw [hrun, halone]

/-- A full read of a table into which others insert and from which they delete rows between
its pages.  Alone it is `scan`, and it ends when the others write no more.  If it returns
rows, they are strictly ascending, so no key appears twice.  A row is among them that was in
the table at each page, above all if it was there all the time.  And they are the rows of the
pages, each of which holds rows that were in the table when it was read. -/
theorem read_amid_writes (t : Table) (moves : List Move) :
    (∃ n, ((start t).run (List.replicate n .page)).reading = .ended t.scan.1) ∧
    (∃ n result, ((start t).run (moves ++ List.replicate n .page)).reading = .ended result) ∧
    ∀ found, ((start t).run moves).reading = .ended (.ok found) →
      let pages := ((start t).run moves).pages
      found.Pairwise Credential.Precedes ∧ (found.map Credential.key).Nodup ∧
      (∀ c, 0 ≤ c.version → (∀ p ∈ pages, c ∈ p.rows.records) → c ∈ found) ∧
      found = pages.flatMap PageRead.page ∧ ∀ p ∈ pages, ∀ c ∈ p.page, c ∈ p.rows.records := by
  refine ⟨?_, exists_ended t moves, ?_⟩
  · obtain ⟨n, more, halone⟩ := exists_read_alone t [] Table.scanStart []
    exact ⟨n, congrArg reading halone⟩
  intro found hended pages
  have hsound := sound_run (sound_start t) moves
  have hcomplete := hsound.ended found hended
  refine ⟨hcomplete.ascending, ?_, ?_, hcomplete.rows, hsound.held⟩
  · exact List.pairwise_map.2 (hcomplete.ascending.imp Key.ne_of_before)
  · intro c hversion hthere
    exact hcomplete.passed c hthere (Table.scanStart_before hversion)

/-- Row `i` of a table. -/
def row (i : Nat) : Credential := ⟨"n", Int32.ofNat i, "C", "t", "2024-01-02T03:04:05Z"⟩

theorem row_before {i j : Nat} (hlt : i < j) (hj : j < 1000) : (row i).Precedes (row j) := by
  refine Or.inr ⟨rfl, Int32.lt_iff_toInt_lt.2 ?_⟩
  show (Int32.ofNat i).toInt < (Int32.ofNat j).toInt
  rw [Int32.toInt_ofNat_of_lt (by omega), Int32.toInt_ofNat_of_lt (by omega)]
  omega

/-- As many rows as fill a page. -/
def fullPage : Ledger where
  records := (List.range Table.pageSize).map row
  ascending := by
    refine List.pairwise_map.2 (List.pairwise_lt_range.imp_of_mem fun {i j} _ hj hlt => ?_)
    exact row_before hlt (Nat.lt_trans (List.mem_range.1 hj) (by decide))

theorem mem_fullPage {c : Credential} : c ∈ fullPage.records ↔ ∃ i < 500, row i = c := by
  simp [fullPage, Table.pageSize]

theorem page_fullPage :
    Table.page (.ofLedger fullPage) Table.scanStart =
      (.ok fullPage.records, ⟨fullPage, [], [.page Table.scanStart Table.pageSize]⟩) := by
  have hversions : ∀ c ∈ fullPage.records, 0 ≤ c.version := by
    intro c hc
    obtain ⟨i, hi, rfl⟩ := mem_fullPage.1 hc
    refine Int32.le_iff_toInt_le.2 ?_
    show (0 : Int) ≤ (Int32.ofNat i).toInt
    rw [Int32.toInt_ofNat_of_lt (by omega)]
    omega
  have hpage : Table.rowsAfter fullPage Table.scanStart = fullPage.records := by
    rw [Table.rowsAfter_eq, Table.restAfter_scanStart hversions, List.take_of_length_le]
    simp [fullPage]
  rw [Table.page_of_sent rfl]
  show (Except.ok (Table.rowsAfter fullPage Table.scanStart), _) = _
  rw [hpage]
  rfl

theorem next_fullPage : Table.nextStart? fullPage.records = some (row 499).key := by
  simp [Table.nextStart?, fullPage, Table.pageSize, List.getLast?_range]

/-- A page is read, its first row is deleted, a row is inserted after its last one, and the
read goes on. -/
def crossing : List Move := [.page, .delete (row 0), .insert (row 600), .page]

theorem ended_crossing :
    ((start (.ofLedger fullPage)).run crossing).reading =
      .ended (.ok (fullPage.records ++ [row 600])) := by
  have hdelete : fullPage.delete (row 0) = .ok (fullPage.without [row 0]) :=
    Ledger.delete_of_mem (mem_fullPage.2 ⟨0, by decide, rfl⟩)
  obtain ⟨rows, hsave⟩ : ∃ rows, (fullPage.without [row 0]).save (row 600) = .ok rows := by
    cases hsave : (fullPage.without [row 0]).save (row 600) with
    | ok rows => exact ⟨rows, rfl⟩
    | error e =>
        obtain ⟨⟨d, hd, hkey⟩, -⟩ := Ledger.save_eq_error_iff.1 hsave
        obtain ⟨i, hi, rfl⟩ := mem_fullPage.1 (Ledger.mem_without.1 hd).1
        exact absurd hkey (Key.ne_of_before (row_before (by omega) (by decide)))
  have hrest : Table.restAfter rows (row 499).key = [row 600] := by
    refine List.perm_singleton.1 ((List.perm_ext_iff_of_nodup (rows.nodup.filter _)
      (List.nodup_singleton _)).2 fun c => ?_)
    rw [List.mem_singleton]
    refine Table.mem_restAfter.trans ⟨?_, ?_⟩
    · rintro ⟨hc, hlater⟩
      rcases (Ledger.mem_save hsave).1 hc with rfl | hc
      · rfl
      · -- The rows of the first page do not lie after its last one.
        obtain ⟨i, hi, rfl⟩ := mem_fullPage.1 (Ledger.mem_without.1 hc).1
        rcases Nat.lt_or_eq_of_le (Nat.le_of_lt_succ hi) with hlt | rfl
        · exact absurd (hlater.trans (row_before hlt (by decide))) (Key.not_before_self _)
        · exact absurd hlater (Key.not_before_self _)
    · rintro rfl
      exact ⟨(Ledger.mem_save hsave).2 (Or.inl rfl), row_before (by decide) (by decide)⟩
  have hsecond : ∀ sent, ((Table.mk rows [] sent).page (row 499).key).1 = .ok [row 600] := by
    intro sent
    rw [Table.page_of_sent rfl]
    show Except.ok (Table.rowsAfter rows (row 499).key) = _
    rw [Table.rowsAfter_eq, hrest]
    rfl
  have hfirst : turn ⟨.ofLedger fullPage, .under [] Table.scanStart, []⟩ = _ :=
    turn_of_full (congrArg Prod.fst page_fullPage) next_fullPage
  rw [page_fullPage] at hfirst
  simp only [crossing, run, List.foldl_cons, List.foldl_nil, step, start, hfirst,
    Table.delete_of_done hdelete, Table.save_of_done hsave]
  rw [turn_of_last (hsecond _) rfl, List.nil_append]

/-- The deleted row was read before it was deleted, the inserted one was read after it was
inserted, and the rows that stayed were read. -/
theorem crossing_read :
    let s := (start (.ofLedger fullPage)).run crossing
    let found := fullPage.records ++ [row 600]
    s.reading = .ended (.ok found) ∧ found.Pairwise Credential.Precedes ∧
      (found.map Credential.key).Nodup ∧
      (∀ c, 0 ≤ c.version → (∀ p ∈ s.pages, c ∈ p.rows.records) → c ∈ found) ∧
      found = s.pages.flatMap PageRead.page ∧
      ∀ p ∈ s.pages, ∀ c ∈ p.page, c ∈ p.rows.records :=
  ⟨ended_crossing, (read_amid_writes (.ofLedger fullPage) crossing).2.2 _ ended_crossing⟩

end SharedTable

end ChannelRelay
