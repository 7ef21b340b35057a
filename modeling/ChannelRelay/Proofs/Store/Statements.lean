import ChannelRelay.Proofs.Store.Paging

/-!
# Statements and the ledger

The table says what a statement does by conditions on all rows, and the ledger goes to the
place of a key.  For the rows it is the same.

* `rowsNamed_eq_under`: sorted by their versions, the rows of a name are the records of the
  name in their order.
* `save_of_free` and `save_of_taken`: the ledger inserts where the primary key admits a row.
* `delete_of_meant` and `delete_of_none`: a delete that means a row takes away the record of
  its key, and the ledger refuses exactly those that mean none.

So a call whose statement is not refused does what the ledger does (`query_of_sent`,
`save_of_sent`, `delete_of_sent`), and one whose statement is refused leaves the rows as they
are.
-/

namespace ChannelRelay.Table

section Rows

variable {rows : Ledger} {c d : Credential}

/-! ## Selected rows -/

theorem rowsNamed_eq_under (rows : Ledger) (name : String) :
    rowsNamed rows name = under name rows.records :=
  Ledger.mergeSort_of_perm (List.Perm.refl _)

/-! ## Inserted rows -/

theorem isTaken_iff {k : Key} : isTaken rows k = true ↔ ∃ d ∈ rows.records, d.key = k := by
  simp [isTaken]

/-- A new row takes the place of the one with its key. -/
theorem mem_withRow : d ∈ (withRow rows c).records ↔ d = c ∨ d ∈ rows.records ∧ d.key ≠ c.key := by
  simp only [withRow, List.mem_append, List.mem_cons, List.mem_filter, decide_eq_true_eq]
  constructor
  · rintro (⟨hd, hbefore⟩ | rfl | ⟨hd, hafter⟩)
    · exact Or.inr ⟨hd, Key.ne_of_before hbefore⟩
    · exact Or.inl rfl
    · exact Or.inr ⟨hd, (Key.ne_of_before hafter).symm⟩
  · rintro (rfl | ⟨hd, hne⟩)
    · exact Or.inr (Or.inl rfl)
    · by_cases hbefore : d.key.Before c.key
      · exact Or.inl ⟨hd, hbefore⟩
      · exact Or.inr (Or.inr ⟨hd, Key.before_of_not_before hne hbefore⟩)

theorem save_of_taken (h : isTaken rows c.key = true) :
    rows.save c = .error (.conflict c.channelName c.version) :=
  Ledger.save_eq_error_iff.2 ⟨isTaken_iff.1 h, rfl⟩

theorem save_of_free (h : isTaken rows c.key = false) : rows.save c = .ok (withRow rows c) := by
  have hfree : ∀ d ∈ rows.records, d.key ≠ c.key := by
    intro d hd hkey
    exact absurd (isTaken_iff.2 ⟨d, hd, hkey⟩) (by simp [h])
  cases hsave : rows.save c with
  | error e =>
      obtain ⟨⟨d, hd, hkey⟩, -⟩ := Ledger.save_eq_error_iff.1 hsave
      exact absurd hkey (hfree d hd)
  | ok rows' =>
      refine congrArg Except.ok (Ledger.ext_mem fun d => ?_)
      rw [Ledger.mem_save hsave, mem_withRow]
      exact or_congr_right ⟨fun hd => ⟨hd, hfree d hd⟩, And.left⟩

/-! ## Deleted rows -/

/-- A delete means the rows with the key and the token of its record. -/
theorem isMeant_iff :
    isMeant c.channelName c.version c.token d = true ↔ d.key = c.key ∧ d.token = c.token := by
  simp [isMeant, Credential.key]

theorem countP_isMeant_eq_zero_iff :
    rows.records.countP (isMeant c.channelName c.version c.token) = 0 ↔
      ∀ d ∈ rows.records, d.key = c.key → d.token ≠ c.token := by
  rw [List.countP_eq_zero]
  refine forall_congr' fun d => forall_congr' fun _ => ?_
  rw [isMeant_iff, not_and]

/-- A delete that means no row leaves all of them. -/
theorem withoutRows_of_none
    (h : rows.records.countP (isMeant c.channelName c.version c.token) = 0) :
    withoutRows rows (isMeant c.channelName c.version c.token) = rows := by
  refine Ledger.ext (List.filter_eq_self.2 fun d hd => ?_)
  simpa using List.countP_eq_zero.1 h d hd

theorem delete_of_none (h : rows.records.countP (isMeant c.channelName c.version c.token) = 0) :
    rows.delete c = .error (.noMatch c.channelName c.version) :=
  Ledger.delete_eq_error_iff.2 ⟨countP_isMeant_eq_zero_iff.1 h, rfl⟩

theorem delete_of_meant (h : rows.records.countP (isMeant c.channelName c.version c.token) ≠ 0) :
    rows.delete c = .ok (withoutRows rows (isMeant c.channelName c.version c.token)) := by
  obtain ⟨d, hd, hmeant⟩ := List.countP_pos_iff.1 (Nat.pos_of_ne_zero h)
  obtain ⟨hkey, htoken⟩ := isMeant_iff.1 hmeant
  refine Ledger.delete_eq_ok_iff.2 ⟨⟨d, hd, hkey, htoken⟩, Ledger.ext_mem fun e => ?_⟩
  rw [Ledger.mem_erase]
  show e ∈ rows.records.filter _ ↔ _
  rw [List.mem_filter, Bool.not_eq_true', ← Bool.not_eq_true, isMeant_iff]
  -- The key is that of one row only, and so all rows with the key have the token.
  refine and_congr_right fun he => not_congr ⟨And.left, fun hsame => ⟨hsame, ?_⟩⟩
  rw [Ledger.eq_of_key_eq he hd (hsame.trans hkey.symm), htoken]

end Rows

/-! ## The calls of a store -/

section Calls

variable {t : Table} {c : Credential} {code : String}

theorem query_of_refused (h : t.refused? 1 = some code) (name : String) :
    t.query name = (.error (refusal code), (t.send (.query name)).2) := by
  simp [query, select, send_eq, h]

theorem query_of_sent (h : t.refused? 1 = none) (name : String) :
    t.query name = (.ok (under name t.rows.records), (t.send (.query name)).2) := by
  simp [query, select, send_eq, h, rowsNamed_eq_under]

theorem save_of_refused (h : t.refused? 1 = some code) (c : Credential) :
    t.save c = (.error (if code = uniqueViolation then .conflict c.channelName c.version
      else refusal code), (t.send (.insert c)).2) := by
  simp [save, insert, send_eq, h]

/-- The primary key refuses a row whose key is taken. -/
theorem insert_of_taken (h : t.refused? 1 = none) (htaken : isTaken t.rows c.key = true) :
    t.insert c = (.error uniqueViolation, (t.send (.insert c)).2) := by
  simp [insert, send_eq, h, htaken]

/-- An insert whose statement is not refused beforehand does what the ledger does. -/
theorem save_of_sent (h : t.refused? 1 = none) (c : Credential) :
    t.save c = match t.rows.save c with
      | .ok rows => (.ok (), { (t.send (.insert c)).2 with rows := rows })
      | .error e => (.error e, (t.send (.insert c)).2) := by
  cases htaken : isTaken t.rows c.key with
  | true =>
      rw [save_of_taken htaken, save, insert_of_taken h htaken]
      simp
  | false =>
      rw [save_of_free htaken]
      simp [save, insert, send_eq, h, htaken]

theorem delete_of_refused (h : t.refused? 1 = some code) (c : Credential) :
    t.delete c =
      (.error (refusal code), (t.send (.delete c.channelName c.version c.token)).2) := by
  simp [delete, deleteRows, send_eq, h]

/-- A delete that means no row affects none. -/
theorem deleteRows_of_none (h : t.refused? 1 = none)
    (hnone : t.rows.records.countP (isMeant c.channelName c.version c.token) = 0) :
    t.deleteRows c.channelName c.version c.token =
      (.ok 0, (t.send (.delete c.channelName c.version c.token)).2) := by
  simp [deleteRows, send_eq, h, hnone, withoutRows_of_none hnone]

/-- A delete that is not refused does what the ledger does. -/
theorem delete_of_sent (h : t.refused? 1 = none) (c : Credential) :
    t.delete c = match t.rows.delete c with
      | .ok rows =>
        (.ok (), { (t.send (.delete c.channelName c.version c.token)).2 with rows := rows })
      | .error e => (.error e, (t.send (.delete c.channelName c.version c.token)).2) := by
  by_cases hnone : t.rows.records.countP (isMeant c.channelName c.version c.token) = 0
  · rw [delete_of_none hnone, delete, deleteRows_of_none h hnone]
    simp
  · rw [delete_of_meant hnone]
    simp [delete, deleteRows, send_eq, h, hnone]

end Calls

/-! ## A table that refuses nothing -/

section Done

variable {rows rows' : Ledger} {c : Credential}

theorem save_of_done (h : rows.save c = .ok rows') (sent : List Statement) :
    save ⟨rows, [], sent⟩ c = (.ok (), ⟨rows', [], .insert c :: sent⟩) := by
  rw [save_of_sent rfl, h]
  rfl

theorem delete_of_done (h : rows.delete c = .ok rows') (sent : List Statement) :
    delete ⟨rows, [], sent⟩ c =
      (.ok (), ⟨rows', [], .delete c.channelName c.version c.token :: sent⟩) := by
  rw [delete_of_sent rfl, h]
  rfl

end Done

end ChannelRelay.Table
