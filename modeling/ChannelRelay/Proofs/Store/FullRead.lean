import ChannelRelay.Proofs.Store.Paging
import ChannelRelay.Surroundings

/-!
# The rows of a full read

A full read of the table starts after the key `Table.scanStart`, the first of all keys.  Every
other row is read once, in the order of the keys, whatever the versions are and wherever the pages
end; a row under the first key is not read.  A plain ledger shows it, so the two stores agree on
exactly the contents without such a row (`full_read`).
-/

namespace ChannelRelay.Store

/-- A table that refuses nothing shows all rows but the one under the first of all keys. -/
theorem scan_table (rows : Ledger) (sent : List Statement) :
    (table ⟨rows, [], sent⟩).scan.1 =
      .ok (rows.records.filter fun c => c.key ≠ Table.scanStart) := by
  have hnone : ∀ n, (⟨rows, [], sent⟩ : Table).refused? n = none := fun n => by
    simp [Table.refused?]
  obtain ⟨hresult, -⟩ := (Table.reads_from ⟨rows, [], sent⟩ [] Table.scanStart).ok (hnone _)
  rw [Table.restAfter_scanStart_eq] at hresult
  exact hresult

/-- Nothing is left out exactly if the first of all keys is free. -/
theorem filter_key_eq_self_iff {rows : Ledger} {k : Key} :
    (rows.records.filter fun c => c.key ≠ k) = rows.records ↔ rows.find? k = none := by
  simp only [List.filter_eq_self, Ledger.find?_eq_none_iff, decide_eq_true_eq]

/-- A full read of a table that refuses nothing gives each row but the one under the first of all
keys, once and in ascending order.  It gives what a plain ledger with the same records gives
exactly if there is no such row. -/
theorem full_read (rows : Ledger) (sent : List Statement) :
    (∃ read, (table ⟨rows, [], sent⟩).scan.1 = .ok read ∧
      read.Pairwise Credential.Precedes ∧ read.Nodup ∧
      ∀ c, c ∈ read ↔ c ∈ rows.records ∧ c.key ≠ Table.scanStart) ∧
    ((table ⟨rows, [], sent⟩).scan.1 = (ledger .plain rows).scan.1 ↔
      rows.find? Table.scanStart = none) := by
  rw [scan_table, scan_plain]
  refine ⟨⟨_, rfl, ?_, ?_, ?_⟩, ?_⟩
  · exact rows.ascending.filter _
  · exact rows.nodup.filter _
  · intro c
    rw [List.mem_filter, decide_eq_true_eq]
  · rw [Except.ok.injEq]
    exact filter_key_eq_self_iff

/-- A single row, under the first of all keys. -/
def firstRow : Ledger :=
  ⟨[⟨"", Int32.minValue, "C1", "t", "2024-01-02T03:04:05Z"⟩], List.pairwise_singleton ..⟩

/-- A full read does not always show what a plain ledger shows. -/
theorem not_full_read : ¬ ∀ rows : Ledger,
    (table (.ofLedger rows)).scan.1 = (ledger .plain rows).scan.1 := by
  intro h
  have hread : (table (.ofLedger firstRow)).scan.1 = .ok [] := scan_table firstRow []
  have hstored : (ledger .plain firstRow).scan.1 = .ok firstRow.records := rfl
  rw [h firstRow, hstored] at hread
  exact List.cons_ne_nil _ _ (Except.ok.inj hread)

end ChannelRelay.Store
