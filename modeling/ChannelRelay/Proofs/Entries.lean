import ChannelRelay.Credential

/-!
# Entries of records

Records have entries exactly if the time of issue of each of them can be read.  The entries show
the tokens of the records, in order (`Credential.tokens_of_entries`); a failure is that of one of
the records (`Credential.exists_of_entries`).
-/

namespace ChannelRelay.Credential

variable {c : Credential} {records : List Credential} {entries : List Entry} {e : RelayError}

theorem entry_eq_ok_iff {entry : Entry} :
    c.entry = .ok entry ↔ ∃ createdAt, Instant.parse? c.createdAt = some createdAt ∧
      entry = ⟨c.token, c.version, createdAt⟩ := by
  unfold Credential.entry
  cases Instant.parse? c.createdAt with
  | some createdAt => simp [eq_comm]
  | none => simp

theorem entry_eq_error_iff :
    c.entry = .error e ↔ Instant.parse? c.createdAt = none ∧
      e = .corruptedRecord c.channelName c.version c.createdAt := by
  unfold Credential.entry
  cases Instant.parse? c.createdAt with
  | some createdAt => simp
  | none => simp [eq_comm]

/-- Entries show the tokens of their records, in order. -/
theorem tokens_of_entries (h : records.mapM Credential.entry = .ok entries) :
    entries.map Entry.token = records.map Credential.token := by
  induction records generalizing entries with
  | nil =>
      obtain rfl := Except.ok.inj h
      rfl
  | cons c rest ih =>
      rw [List.mapM_cons] at h
      cases hentry : c.entry with
      | error e =>
          rw [hentry] at h
          exact absurd h (by simp [bind, Except.bind])
      | ok entry =>
          rw [hentry] at h
          cases hrest : rest.mapM Credential.entry with
          | error e =>
              rw [hrest] at h
              exact absurd h (by simp [bind, Except.bind])
          | ok others =>
              rw [hrest] at h
              obtain rfl := Except.ok.inj h
              obtain ⟨createdAt, -, rfl⟩ := entry_eq_ok_iff.1 hentry
              rw [List.map_cons, List.map_cons, ih hrest]

/-- Where the entries of some records fail, that of one of them does. -/
theorem exists_of_entries (h : records.mapM Credential.entry = .error e) :
    ∃ c ∈ records, c.entry = .error e := by
  induction records with
  | nil => exact absurd h (by simp [pure, Except.pure])
  | cons c rest ih =>
      rw [List.mapM_cons] at h
      cases hentry : c.entry with
      | error e' =>
          rw [hentry] at h
          obtain rfl := Except.error.inj h
          exact ⟨c, List.mem_cons_self, hentry⟩
      | ok entry =>
          rw [hentry] at h
          cases hrest : rest.mapM Credential.entry with
          | error e' =>
              rw [hrest] at h
              obtain rfl := Except.error.inj h
              obtain ⟨d, hd, hfail⟩ := ih hrest
              exact ⟨d, List.mem_cons_of_mem c hd, hfail⟩
          | ok others =>
              rw [hrest] at h
              exact absurd h (by simp [bind, Except.bind, pure, Except.pure])

/-- That a record cannot be read is not a conflict with another writer. -/
theorem isConflict_of_entries (h : records.mapM Credential.entry = .error e) :
    e.isConflict = false := by
  obtain ⟨c, -, hentry⟩ := exists_of_entries h
  obtain ⟨-, rfl⟩ := entry_eq_error_iff.1 hentry
  rfl

end ChannelRelay.Credential
