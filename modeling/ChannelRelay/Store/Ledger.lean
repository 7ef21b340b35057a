import ChannelRelay.Credential

/-!
# The ledger of credentials

Records in strictly ascending order of their keys, so that a key is taken at most
once.  An insert is refused where its key is taken; a delete is refused unless the
record under its key still holds the given token.
-/

namespace ChannelRelay

/-- The order of records in a ledger. -/
abbrev Credential.Precedes (a b : Credential) : Prop := a.key.Before b.key

/-- The stored credentials. -/
structure Ledger where
  records : List Credential
  ascending : records.Pairwise Credential.Precedes

namespace Ledger

/-- No records. -/
def empty : Ledger := ⟨[], List.Pairwise.nil⟩

/-- The number of records. -/
def size (l : Ledger) : Nat := l.records.length

/-- Whether there are no records. -/
def isEmpty (l : Ledger) : Bool := l.records.isEmpty

/-- The record under a key. -/
def find? (l : Ledger) (k : Key) : Option Credential :=
  l.records.find? (·.key == k)

/-- Puts a record before the first one that comes after it. -/
def place (c : Credential) : List Credential → List Credential
  | [] => [c]
  | d :: rest => if c.key.Before d.key then c :: d :: rest else d :: place c rest

theorem mem_place {c d : Credential} {records : List Credential} :
    d ∈ place c records ↔ d = c ∨ d ∈ records := by
  induction records with
  | nil => simp [place]
  | cons e rest ih =>
    simp only [place]
    split <;> simp [ih]
    grind

theorem place_ascending {c : Credential} {records : List Credential}
    (hfresh : ∀ d ∈ records, d.key ≠ c.key)
    (hrecords : records.Pairwise Credential.Precedes) :
    (place c records).Pairwise Credential.Precedes := by
  induction records with
  | nil => simp [place]
  | cons d rest ih =>
    have hrest := List.pairwise_cons.1 hrecords
    simp only [place]
    split
    · rename_i hbefore
      refine List.pairwise_cons.2 ⟨fun e he => ?_, hrecords⟩
      rcases List.mem_cons.1 he with rfl | he
      · exact hbefore
      · exact hbefore.trans (hrest.1 e he)
    · rename_i hbefore
      refine List.pairwise_cons.2 ⟨fun e he => ?_, ih (fun e he => hfresh e (by simp [he])) hrest.2⟩
      rcases mem_place.1 he with rfl | he
      · exact Key.before_of_not_before (Ne.symm (hfresh d (by simp))) hbefore
      · exact hrest.1 e he

theorem fresh_of_find?_eq_none {l : Ledger} {k : Key} (h : l.find? k = none) :
    ∀ d ∈ l.records, d.key ≠ k := by
  intro d hd
  have := List.find?_eq_none.1 h d hd
  simpa using this

/-- Inserts a record whose key is free. -/
def save (l : Ledger) (c : Credential) : Except StoreError Ledger :=
  match h : l.find? c.key with
  | some _ => .error (.conflict c.channelName c.version)
  | none => .ok ⟨place c l.records, place_ascending (fresh_of_find?_eq_none h) l.ascending⟩

/-- Takes out the record under a key. -/
def erase (l : Ledger) (k : Key) : Ledger :=
  ⟨l.records.eraseP (·.key == k), l.ascending.sublist List.eraseP_sublist⟩

/-- Deletes the record under the key of `c` if it holds the token of `c`. -/
def delete (l : Ledger) (c : Credential) : Except StoreError Ledger :=
  match l.find? c.key with
  | some stored =>
    if stored.token = c.token then .ok (l.erase c.key)
    else .error (.noMatch c.channelName c.version)
  | none => .error (.noMatch c.channelName c.version)

/-- The records under a name, read from the first possible key on. -/
def query (l : Ledger) (name : String) : List Credential :=
  (l.records.dropWhile fun c => c.key.Before (.first name)).takeWhile (·.channelName == name)

/-- Every record. -/
def scan (l : Ledger) : List Credential := l.records

/-- The ledger of some records, saved one after the other; a record whose key is
taken is left out. -/
def ofRecords (records : List Credential) : Ledger :=
  records.foldl (fun l c => (l.save c).toOption.getD l) empty

end Ledger

end ChannelRelay
