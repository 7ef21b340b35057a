import ChannelRelay.Proofs.Store.Contents
import ChannelRelay.Surroundings

/-!
# A ledger files records by their keys

`Filing` is the plain account of what writes do: under each key there is one record or none, an
insert fills a free key, and a delete empties a key that holds the token it names.  After any
writes the ledger holds exactly the records of this account, in the order of their keys, and
refuses exactly the writes that the account does not accept (`keeps_after`).  A query reads a
range of keys, and finds all records of its name and no others.
-/

namespace ChannelRelay

/-- A write that a store is asked for. -/
inductive Write where
  | save (c : Credential)
  | delete (c : Credential)

/-- The record under each key. -/
abbrev Filing := Key → Option Credential

namespace Filing

/-- Nothing under any key. -/
def empty : Filing := fun _ => none

/-- Other contents under one key. -/
def put (f : Filing) (k : Key) (content : Option Credential) : Filing :=
  fun k' => if k' = k then content else f k'

/-- A write, which is left out if its key is taken, or does not hold its token. -/
def write (f : Filing) : Write → Filing
  | .save c => if f c.key = none then f.put c.key (some c) else f
  | .delete c => if (f c.key).map Credential.token = some c.token then f.put c.key none else f

def after (f : Filing) (writes : List Write) : Filing :=
  writes.foldl write f

/-- Every record is filed under its own key. -/
def Proper (f : Filing) : Prop :=
  ∀ k c, f k = some c → c.key = k

theorem proper_empty : Proper empty := by
  intro k c h
  exact absurd h (by simp [empty])

theorem Proper.put_some {f : Filing} (h : f.Proper) (c : Credential) :
    (f.put c.key (some c)).Proper := by
  intro k d hd
  unfold put at hd
  split at hd
  · rename_i hk
    obtain rfl := Option.some.inj hd
    exact hk.symm
  · exact h k d hd

theorem Proper.put_none {f : Filing} (h : f.Proper) (k : Key) : (f.put k none).Proper := by
  intro k' d hd
  unfold put at hd
  split at hd
  · exact absurd hd (by simp)
  · exact h k' d hd

theorem Proper.write {f : Filing} (h : f.Proper) (w : Write) : (f.write w).Proper := by
  cases w with
  | save c =>
      show (if f c.key = none then f.put c.key (some c) else f).Proper
      split
      · exact h.put_some c
      · exact h
  | delete c =>
      show (if _ then f.put c.key none else f).Proper
      split
      · exact h.put_none c.key
      · exact h

theorem Proper.after {f : Filing} (h : f.Proper) (writes : List Write) :
    (f.after writes).Proper := by
  induction writes generalizing f with
  | nil => exact h
  | cons w writes ih => exact ih (h.write w)

end Filing

namespace Ledger

variable {l l' : Ledger} {c : Credential}

/-- An insert that is carried out fills its key. -/
theorem find?_save (h : l.save c = .ok l') (k : Key) :
    l'.find? k = if k = c.key then some c else l.find? k := by
  split
  · rename_i hk
    exact find?_eq_some_iff.2 ⟨(mem_save h).2 (Or.inl rfl), hk.symm⟩
  · rename_i hk
    refine Option.ext fun d => ?_
    simp only [find?_eq_some_iff, mem_save h]
    constructor
    · rintro ⟨rfl | hd, hkey⟩
      · exact absurd hkey.symm hk
      · exact ⟨hd, hkey⟩
    · rintro ⟨hd, hkey⟩
      exact ⟨Or.inr hd, hkey⟩

/-- A delete that is carried out empties its key. -/
theorem find?_delete (h : l.delete c = .ok l') (k : Key) :
    l'.find? k = if k = c.key then none else l.find? k := by
  split
  · rename_i hk
    exact find?_eq_none_iff.2 fun d hd hkey => ((mem_delete h).1 hd).2 (hkey.trans hk)
  · rename_i hk
    refine Option.ext fun d => ?_
    simp only [find?_eq_some_iff, mem_delete h]
    constructor
    · rintro ⟨⟨hd, -⟩, hkey⟩
      exact ⟨hd, hkey⟩
    · rintro ⟨hd, rfl⟩
      exact ⟨⟨hd, hk⟩, rfl⟩

/-- An insert is carried out exactly if nothing is found under its key. -/
theorem exists_save_of_free (h : l.find? c.key = none) : ∃ l', l.save c = .ok l' := by
  cases hsave : l.save c with
  | ok l' => exact ⟨l', rfl⟩
  | error e =>
      obtain ⟨⟨d, hd, hkey⟩, -⟩ := save_eq_error_iff.1 hsave
      exact absurd hkey (find?_eq_none_iff.1 h d hd)

theorem save_of_taken {d : Credential} (h : l.find? c.key = some d) :
    l.save c = .error (.conflict c.channelName c.version) :=
  save_eq_error_iff.2 ⟨⟨d, find?_eq_some_iff.1 h⟩, rfl⟩

theorem delete_of_held {d : Credential} (h : l.find? c.key = some d) (htoken : d.token = c.token) :
    l.delete c = .ok (l.erase c.key) := by
  obtain ⟨hd, hkey⟩ := find?_eq_some_iff.1 h
  exact delete_eq_ok_iff.2 ⟨⟨d, hd, hkey, htoken⟩, rfl⟩

theorem delete_of_other (h : ∀ d, l.find? c.key = some d → d.token ≠ c.token) :
    l.delete c = .error (.noMatch c.channelName c.version) :=
  delete_eq_error_iff.2 ⟨fun d hd hkey => h d (find?_eq_some_iff.2 ⟨hd, hkey⟩), rfl⟩

/-- What is found under each key is what is filed there. -/
def Files (l : Ledger) (f : Filing) : Prop :=
  ∀ k, l.find? k = f k

end Ledger

namespace Store

/-- Asks a store for a write. -/
def write (w : Write) (s : Store) : Except StoreError Unit × Store :=
  match w with
  | .save c => s.save c
  | .delete c => s.delete c

/-- A store that was asked for some writes, one after the other. -/
def after (s : Store) (writes : List Write) : Store :=
  writes.foldl (fun s w => (s.write w).2) s

variable {l l' : Ledger} {c : Credential}

/-- A write changes the ledger as it changes the account. -/
theorem exists_files_write {f : Filing} (h : l.Files f) (w : Write) :
    ∃ l', ((ledger .plain l).write w).2 = .ledger .plain l' ∧ l'.Files (f.write w) := by
  cases w with
  | save c =>
      show ∃ l' : Ledger, ((ledger .plain l).save c).2 = _ ∧
        l'.Files (if f c.key = none then _ else f)
      cases hfound : l.find? c.key with
      -- The key is free in the account exactly if it is free in the ledger.
      | none =>
          obtain ⟨l', hsave⟩ := Ledger.exists_save_of_free hfound
          rw [save_of_ok hsave, if_pos (by rw [← h, hfound])]
          refine ⟨l', rfl, fun k => ?_⟩
          rw [Ledger.find?_save hsave, Filing.put, h]
      | some d =>
          rw [save_of_error (Ledger.save_of_taken hfound), if_neg (by rw [← h, hfound]; simp)]
          exact ⟨l, rfl, h⟩
  | delete c =>
      show ∃ l' : Ledger, ((ledger .plain l).delete c).2 = _ ∧
        l'.Files (if (f c.key).map Credential.token = some c.token then _ else f)
      rw [← h c.key]
      by_cases hheld : (l.find? c.key).map Credential.token = some c.token
      · obtain ⟨d, hfound, htoken⟩ := Option.map_eq_some_iff.1 hheld
        have hdelete := Ledger.delete_of_held hfound htoken
        rw [delete_of_ok hdelete, if_pos hheld]
        refine ⟨_, rfl, fun k => ?_⟩
        rw [Ledger.find?_delete hdelete, Filing.put, h]
      · rw [delete_of_error (Ledger.delete_of_other fun d hfound htoken => hheld (by
          rw [hfound, ← htoken]; rfl)), if_neg hheld]
        exact ⟨l, rfl, h⟩

theorem exists_files_after {f : Filing} (h : l.Files f) (writes : List Write) :
    ∃ l', (ledger .plain l).after writes = .ledger .plain l' ∧ l'.Files (f.after writes) := by
  induction writes generalizing l f with
  | nil => exact ⟨l, rfl, h⟩
  | cons w writes ih =>
      obtain ⟨m, hm, hfiles⟩ := exists_files_write h w
      obtain ⟨l', hl', hafter⟩ := ih hfiles
      refine ⟨l', ?_, hafter⟩
      rw [← hl', ← hm]
      rfl

/-- A store that keeps the records of an account, and answers its calls by them. -/
structure Keeps (s : Store) (filed : Filing) : Prop where
  /-- Every record is filed under its own key. -/
  own_key : ∀ k c, filed k = some c → c.key = k
  /-- The records are those that are filed. -/
  mem_iff : ∀ c, c ∈ s.records ↔ filed c.key = some c
  /-- An insert whose key is taken is a conflict and changes nothing. -/
  save_taken : ∀ c, filed c.key ≠ none →
    s.save c = (.error (.conflict c.channelName c.version), s)
  /-- Any other insert adds its record. -/
  save_free : ∀ c, filed c.key = none →
    (s.save c).1 = .ok () ∧ (s.save c).2.records.Perm (c :: s.records)
  /-- A delete whose key is free, or holds another token, finds no match and changes nothing. -/
  delete_other : ∀ c, (∀ d, filed c.key = some d → d.token ≠ c.token) →
    s.delete c = (.error (.noMatch c.channelName c.version), s)
  /-- Any other delete takes out the record under its key. -/
  delete_held : ∀ c d, filed c.key = some d → d.token = c.token →
    (s.delete c).1 = .ok () ∧ s.records.Perm (d :: (s.delete c).2.records)
  /-- A query finds the records of its name, in strictly ascending order of versions. -/
  query_eq : ∀ name, s.query name = (.ok (under name s.records), s)
  query_ascending : ∀ name, (under name s.records).Pairwise fun c d => c.version < d.version
  /-- A full read gives the records in strictly ascending order of keys, so each of them once. -/
  scan_eq : s.scan = (.ok s.records, s)
  scan_ascending : s.records.Pairwise Credential.Precedes

/-- After any inserts and deletes, accepted or refused, a ledger that was empty at first keeps the
records that are filed by then. -/
theorem keeps_after (writes : List Write) :
    ((ledger .plain .empty).after writes).Keeps (Filing.empty.after writes) := by
  obtain ⟨l, hstore, hfiles⟩ := exists_files_after (l := .empty) (f := .empty) (fun _ => rfl) writes
  have hproper := Filing.proper_empty.after writes
  -- From here on the writes do not matter, only that the ledger agrees with the account.
  generalize Filing.empty.after writes = filed at hfiles hproper
  rw [hstore]
  refine ⟨hproper, fun c => ?_, fun c hc => ?_, fun c hc => ?_, fun c hc => ?_,
    fun c d hd htoken => ?_, fun name => ?_, l.under_ascending, rfl, l.ascending⟩
  · show c ∈ l.records ↔ _
    rw [← hfiles, Ledger.find?_eq_some_iff]
    simp
  · obtain ⟨d, hd⟩ := Option.ne_none_iff_exists'.1 hc
    rw [← hfiles] at hd
    exact save_of_error (Ledger.save_of_taken hd)
  · rw [← hfiles] at hc
    obtain ⟨l', hsave⟩ := Ledger.exists_save_of_free hc
    rw [save_of_ok hsave]
    exact ⟨rfl, Ledger.perm_of_save hsave⟩
  · simp only [← hfiles c.key] at hc
    exact delete_of_error (Ledger.delete_of_other hc)
  · rw [← hfiles] at hd
    obtain ⟨hmem, hkey⟩ := Ledger.find?_eq_some_iff.1 hd
    rw [delete_of_ok (Ledger.delete_of_held hd htoken), ← hkey]
    exact ⟨rfl, Ledger.eraseP_perm hmem⟩
  · rw [query_plain, Ledger.query_eq_under]
    rfl

end Store

end ChannelRelay
