import ChannelRelay.Store.Ledger

/-!
# The contents of a ledger

What the operations of a ledger do to its records.  The key of a record tells it
from all others, so an insert adds exactly one record, a delete takes out exactly
one, and a query gives the records of its name in ascending order of versions.

* `query_eq_under` says that reading a range of keys is the same as selecting by
  name.
* `mergeSort_of_perm` says that sorting by versions brings the records of a name back
  into their order.
* `save_eq_ok_iff`, `save_eq_error_iff`, `delete_eq_ok_iff` and
  `delete_eq_error_iff` say when an insert or a delete is carried out, and what it
  leaves behind.
* `length_under_save` and `length_under_delete` count the records of a name.
-/

namespace ChannelRelay

/-- The records with a name, in their order. -/
def under (name : String) (records : List Credential) : List Credential :=
  records.filter (·.channelName == name)

@[simp] theorem under_nil (name : String) : under name [] = [] := rfl

theorem under_cons (name : String) (c : Credential) (records : List Credential) :
    under name (c :: records) =
      if c.channelName = name then c :: under name records else under name records := by
  by_cases h : c.channelName = name
  · simp [under, h]
  · simp [under, h]

@[simp] theorem mem_under {name : String} {c : Credential} {records : List Credential} :
    c ∈ under name records ↔ c ∈ records ∧ c.channelName = name := by
  simp [under]

theorem under_append (name : String) (l r : List Credential) :
    under name (l ++ r) = under name l ++ under name r :=
  List.filter_append ..

namespace Key

/-- A key comes before all keys of a name exactly when its name does. -/
theorem before_first_iff {k : Key} {name : String} :
    k.Before (first name) ↔ Utf8.encode k.name < Utf8.encode name := by
  constructor
  · rintro (h | ⟨-, h⟩)
    · exact h
    · exact absurd h (Int32.not_lt.2 (Int32.minValue_le _))
  · intro h
    exact Or.inl h

theorem ne_of_before {a b : Key} (h : a.Before b) : a ≠ b := by
  rintro rfl
  exact not_before_self a h

end Key

namespace Ledger

@[ext] theorem ext {l m : Ledger} (h : l.records = m.records) : l = m := by
  cases l
  cases m
  cases h
  rfl

/-- The key of a record tells it from all others. -/
theorem eq_of_key_eq {l : Ledger} {c d : Credential} (hc : c ∈ l.records) (hd : d ∈ l.records)
    (hkey : c.key = d.key) : c = d := by
  obtain ⟨records, ascending⟩ := l
  induction records with
  | nil => exact absurd hc List.not_mem_nil
  | cons e rest ih =>
      obtain ⟨hfirst, hrest⟩ := List.pairwise_cons.1 ascending
      rcases List.mem_cons.1 hc with hce | hcrest
      · rcases List.mem_cons.1 hd with hde | hdrest
        · rw [hce, hde]
        · exact absurd (hce ▸ hkey) (Key.ne_of_before (hfirst d hdrest))
      · rcases List.mem_cons.1 hd with hde | hdrest
        · exact absurd (hde ▸ hkey).symm (Key.ne_of_before (hfirst c hcrest))
        · exact ih hrest hcrest hdrest

theorem find?_eq_some_iff {l : Ledger} {k : Key} {c : Credential} :
    l.find? k = some c ↔ c ∈ l.records ∧ c.key = k := by
  constructor
  · intro h
    exact ⟨List.mem_of_find?_eq_some h, by simpa using List.find?_some h⟩
  · rintro ⟨hc, rfl⟩
    cases h : l.find? c.key with
    | none => exact absurd rfl (fresh_of_find?_eq_none h c hc)
    | some d =>
        have hd : d ∈ l.records := List.mem_of_find?_eq_some h
        have hkey : d.key = c.key := by simpa using List.find?_some h
        rw [eq_of_key_eq hd hc hkey]

theorem find?_eq_none_iff {l : Ledger} {k : Key} :
    l.find? k = none ↔ ∀ c ∈ l.records, c.key ≠ k := by
  constructor
  · exact fresh_of_find?_eq_none
  · intro h
    exact List.find?_eq_none.2 fun c hc => by simpa using h c hc

/-! ## Queries -/

/-- From the first key of a name on, the records of the name come first. -/
theorem takeWhile_eq_under {name : String} {records : List Credential}
    (hsorted : records.Pairwise Credential.Precedes)
    (hfrom : ∀ c ∈ records, ¬ c.key.Before (.first name)) :
    records.takeWhile (·.channelName == name) = under name records := by
  induction records with
  | nil => rfl
  | cons c rest ih =>
      obtain ⟨hfirst, hrest⟩ := List.pairwise_cons.1 hsorted
      have ih' := ih hrest fun d hd => hfrom d (List.mem_cons_of_mem c hd)
      by_cases hname : c.channelName = name
      · rw [under_cons, if_pos hname, List.takeWhile_cons, if_pos (by simpa using hname), ih']
      · -- The name of `c` is greater, and so are those of all records after it.
        have hnone : under name rest = [] := by
          refine List.filter_eq_nil_iff.2 fun d hd => ?_
          have hnot := hfrom c List.mem_cons_self
          rw [Key.before_first_iff] at hnot
          rcases hfirst d hd with hlt | ⟨heq, -⟩
          · have : Utf8.encode name < Utf8.encode d.channelName :=
              List.lt_of_le_of_lt hnot hlt
            have hne : d.channelName ≠ name := by
              rintro rfl
              exact List.lt_irrefl _ this
            simpa using hne
          · have hne : d.channelName ≠ name := fun h => hname (heq.trans h)
            simpa using hne
        rw [under_cons, if_neg hname, List.takeWhile_cons, if_neg (by simpa using hname), hnone]

/-- Reading the keys from the first one of a name on gives the records of the name. -/
theorem query_eq_under (l : Ledger) (name : String) : l.query name = under name l.records := by
  obtain ⟨records, ascending⟩ := l
  show (records.dropWhile fun c => c.key.Before (.first name)).takeWhile _ = _
  induction records with
  | nil => rfl
  | cons c rest ih =>
      obtain ⟨hfirst, hrest⟩ := List.pairwise_cons.1 ascending
      by_cases hbefore : c.key.Before (.first name)
      · have hne : c.channelName ≠ name := by
          rintro rfl
          exact List.lt_irrefl _ (Key.before_first_iff.1 hbefore)
        rw [List.dropWhile_cons, if_pos (by simpa using hbefore), under_cons, if_neg hne]
        exact ih hrest
      · rw [List.dropWhile_cons, if_neg (by simpa using hbefore)]
        refine takeWhile_eq_under ascending fun d hd => ?_
        rcases List.mem_cons.1 hd with rfl | hd
        · exact hbefore
        · exact fun h => hbefore ((hfirst d hd).trans h)

/-- The records of a name stand in ascending order of versions. -/
theorem under_ascending (l : Ledger) (name : String) :
    (under name l.records).Pairwise fun c d => c.version < d.version := by
  have hsorted := l.ascending.filter (·.channelName == name)
  refine hsorted.imp_of_mem fun {c d} hc hd hbefore => ?_
  have hname : c.channelName = d.channelName :=
    (mem_under.1 hc).2.trans (mem_under.1 hd).2.symm
  rcases hbefore with hlt | ⟨-, hversion⟩
  · have : Utf8.encode c.channelName < Utf8.encode d.channelName := hlt
    rw [hname] at this
    exact absurd this (List.lt_irrefl _)
  · exact hversion

/-- Sorting brings the records of a name back into their order. -/
theorem mergeSort_of_perm {l : Ledger} {name : String} {found : List Credential}
    (h : found.Perm (under name l.records)) :
    found.mergeSort (fun a b => a.version ≤ b.version) = under name l.records := by
  have hsorted : (found.mergeSort fun a b => a.version ≤ b.version).Pairwise
      fun a b => decide (a.version ≤ b.version) = true := by
    refine List.pairwise_mergeSort ?_ ?_ found
    · intro a b c hab hbc
      exact decide_eq_true (Int32.le_trans (of_decide_eq_true hab) (of_decide_eq_true hbc))
    · intro a b
      simpa using Int32.le_total a.version b.version
  have hunder : (under name l.records).Pairwise
      fun a b => decide (a.version ≤ b.version) = true :=
    (l.under_ascending name).imp fun hlt => decide_eq_true (Int32.le_of_lt hlt)
  refine List.Perm.eq_of_pairwise ?_ hsorted hunder ((List.mergeSort_perm _ _).trans h)
  -- Two records of a name with the same version have the same key.
  intro a b ha hb hab hba
  have ha := mem_under.1 (h.mem_iff.1 (List.mem_mergeSort.1 ha))
  have hb := mem_under.1 hb
  have hversion : a.version = b.version :=
    Int32.le_antisymm (of_decide_eq_true hab) (of_decide_eq_true hba)
  refine eq_of_key_eq ha.1 hb.1 ?_
  rw [Credential.key, Credential.key, ha.2, hb.2, hversion]

/-! ## Inserts -/

theorem place_perm (c : Credential) (records : List Credential) :
    (place c records).Perm (c :: records) := by
  induction records with
  | nil => exact List.Perm.refl _
  | cons d rest ih =>
      simp only [place]
      split
      · exact List.Perm.refl _
      · exact (ih.cons d).trans (List.Perm.swap c d rest)

/-- An insert is carried out exactly if its key is free; it adds one record. -/
theorem save_eq_ok_iff {l l' : Ledger} {c : Credential} :
    l.save c = .ok l' ↔ (∀ d ∈ l.records, d.key ≠ c.key) ∧ l'.records = place c l.records := by
  unfold save
  split
  · rename_i d hd
    obtain ⟨hmem, hkey⟩ := find?_eq_some_iff.1 hd
    simp only [reduceCtorEq, false_iff, not_and]
    exact fun h => absurd hkey (h d hmem)
  · rename_i hnone
    rw [Except.ok.injEq]
    constructor
    · rintro rfl
      exact ⟨fresh_of_find?_eq_none hnone, rfl⟩
    · rintro ⟨-, h⟩
      exact ext h.symm

/-- An insert is refused exactly if its key is taken. -/
theorem save_eq_error_iff {l : Ledger} {c : Credential} {e : StoreError} :
    l.save c = .error e ↔
      (∃ d ∈ l.records, d.key = c.key) ∧ e = .conflict c.channelName c.version := by
  unfold save
  split
  · rename_i d hd
    have hd' := find?_eq_some_iff.1 hd
    rw [Except.error.injEq]
    exact ⟨fun h => ⟨⟨d, hd'⟩, h.symm⟩, fun h => h.2.symm⟩
  · rename_i hnone
    simp only [reduceCtorEq, false_iff]
    rintro ⟨⟨d, hd, hkey⟩, -⟩
    exact fresh_of_find?_eq_none hnone d hd hkey

theorem mem_save {l l' : Ledger} {c d : Credential} (h : l.save c = .ok l') :
    d ∈ l'.records ↔ d = c ∨ d ∈ l.records := by
  rw [(save_eq_ok_iff.1 h).2, mem_place]

/-- An insert that is carried out adds one record. -/
theorem perm_of_save {l l' : Ledger} {c : Credential} (h : l.save c = .ok l') :
    l'.records.Perm (c :: l.records) := by
  rw [(save_eq_ok_iff.1 h).2]
  exact place_perm c l.records

theorem under_save_perm {l l' : Ledger} {c : Credential} (h : l.save c = .ok l')
    (name : String) : (under name l'.records).Perm (under name (c :: l.records)) := by
  exact (perm_of_save h).filter _

theorem length_under_save {l l' : Ledger} {c : Credential} (h : l.save c = .ok l')
    (name : String) :
    (under name l'.records).length =
      (under name l.records).length + (under name [c]).length := by
  rw [(under_save_perm h name).length_eq, show c :: l.records = [c] ++ l.records from rfl,
    under_append, List.length_append, Nat.add_comm]

/-- Two ledgers with the same records of a name list them in the same order. -/
theorem under_eq_of_perm {l m : Ledger} {name : String}
    (h : (under name l.records).Perm (under name m.records)) :
    under name l.records = under name m.records := by
  refine List.Perm.eq_of_pairwise ?_ (l.under_ascending name) (m.under_ascending name) h
  intro c d _ _ hcd hdc
  exact absurd (Int32.lt_trans hcd hdc) Int32.lt_irrefl

theorem under_save_of_ne {l l' : Ledger} {c : Credential} {name : String}
    (h : l.save c = .ok l') (hne : c.channelName ≠ name) :
    under name l'.records = under name l.records := by
  have hperm := under_save_perm h name
  rw [under_cons, if_neg hne] at hperm
  exact under_eq_of_perm hperm

/-- A record with a greater version comes last. -/
theorem under_save_of_lt {l l' : Ledger} {c : Credential} (h : l.save c = .ok l')
    (hlt : ∀ d ∈ under c.channelName l.records, d.version < c.version) :
    under c.channelName l'.records = under c.channelName l.records ++ [c] := by
  have hperm := under_save_perm h c.channelName
  rw [under_cons, if_pos rfl] at hperm
  have hsorted : (under c.channelName l.records ++ [c]).Pairwise
      fun d e => d.version < e.version := by
    refine List.pairwise_append.2 ⟨l.under_ascending _, List.pairwise_singleton _ _, ?_⟩
    intro d hd e he
    rw [List.mem_singleton.1 he]
    exact hlt d hd
  refine List.Perm.eq_of_pairwise ?_ (l'.under_ascending _) hsorted
    (hperm.trans (List.perm_append_singleton _ _).symm)
  intro d e _ _ hde hed
  exact absurd (Int32.lt_trans hde hed) Int32.lt_irrefl

/-! ## Deletes -/

theorem eraseP_perm {l : Ledger} {c : Credential} (hc : c ∈ l.records) :
    l.records.Perm (c :: (l.erase c.key).records) := by
  obtain ⟨d, before, after, -, hd, hrecords, herase⟩ :=
    List.exists_of_eraseP (p := (·.key == c.key)) hc (by simp)
  have hmem : d ∈ l.records := by simp [hrecords]
  obtain rfl : d = c := eq_of_key_eq hmem hc (by simpa using hd)
  show l.records.Perm (d :: l.records.eraseP (·.key == d.key))
  rw [herase, hrecords]
  exact List.perm_middle

/-- A delete is carried out exactly if the record under its key holds its token; it
takes out that record. -/
theorem delete_eq_ok_iff {l l' : Ledger} {c : Credential} :
    l.delete c = .ok l' ↔
      (∃ d ∈ l.records, d.key = c.key ∧ d.token = c.token) ∧ l' = l.erase c.key := by
  unfold delete
  split
  · rename_i stored hstored
    obtain ⟨hmem, hkey⟩ := find?_eq_some_iff.1 hstored
    split
    · rename_i htoken
      rw [Except.ok.injEq]
      exact ⟨fun h => ⟨⟨stored, hmem, hkey, htoken⟩, h.symm⟩, fun h => h.2.symm⟩
    · rename_i htoken
      simp only [reduceCtorEq, false_iff]
      rintro ⟨⟨d, hd, hdkey, hdtoken⟩, -⟩
      obtain rfl : d = stored := eq_of_key_eq hd hmem (hdkey.trans hkey.symm)
      exact htoken hdtoken
  · rename_i hnone
    simp only [reduceCtorEq, false_iff]
    rintro ⟨⟨d, hd, hdkey, -⟩, -⟩
    exact find?_eq_none_iff.1 hnone d hd hdkey

/-- A delete is refused exactly if no record has its key and its token. -/
theorem delete_eq_error_iff {l : Ledger} {c : Credential} {e : StoreError} :
    l.delete c = .error e ↔
      (∀ d ∈ l.records, d.key = c.key → d.token ≠ c.token) ∧
        e = .noMatch c.channelName c.version := by
  unfold delete
  split
  · rename_i stored hstored
    obtain ⟨hmem, hkey⟩ := find?_eq_some_iff.1 hstored
    split
    · rename_i htoken
      simp only [reduceCtorEq, false_iff]
      exact fun h => h.1 stored hmem hkey htoken
    · rename_i htoken
      rw [Except.error.injEq]
      constructor
      · rintro rfl
        refine ⟨fun d hd hdkey => ?_, rfl⟩
        obtain rfl : d = stored := eq_of_key_eq hd hmem (hdkey.trans hkey.symm)
        exact htoken
      · exact fun h => h.2.symm
  · rename_i hnone
    rw [Except.error.injEq]
    constructor
    · rintro rfl
      exact ⟨fun d hd hdkey => absurd hdkey (find?_eq_none_iff.1 hnone d hd), rfl⟩
    · exact fun h => h.2.symm

/-- A delete of a stored record takes out that record. -/
theorem perm_of_delete {l l' : Ledger} {c : Credential} (hc : c ∈ l.records)
    (h : l.delete c = .ok l') : l.records.Perm (c :: l'.records) := by
  rw [(delete_eq_ok_iff.1 h).2]
  exact eraseP_perm hc

/-- A delete that is carried out takes out exactly one record, which has the key and
the token that were given. -/
theorem exists_removed_of_delete {l l' : Ledger} {c : Credential} (h : l.delete c = .ok l') :
    ∃ d, l.records.Perm (d :: l'.records) ∧ d.key = c.key ∧ d.token = c.token := by
  obtain ⟨⟨d, hd, hkey, htoken⟩, rfl⟩ := delete_eq_ok_iff.1 h
  exact ⟨d, hkey ▸ eraseP_perm hd, hkey, htoken⟩

theorem sublist_delete {l l' : Ledger} {c : Credential} (h : l.delete c = .ok l') :
    l'.records.Sublist l.records := by
  rw [(delete_eq_ok_iff.1 h).2]
  exact List.eraseP_sublist

theorem mem_erase {l : Ledger} {k : Key} {c : Credential} :
    c ∈ (l.erase k).records ↔ c ∈ l.records ∧ c.key ≠ k := by
  constructor
  · intro hc
    have hmem : c ∈ l.records := List.mem_of_mem_eraseP hc
    refine ⟨hmem, fun hkey => ?_⟩
    -- The record of the key is one of two, and the keys of two records differ.
    have hperm := eraseP_perm hmem
    rw [hkey] at hperm
    have hsorted : (c :: (l.erase k).records).Pairwise fun a b => a.key ≠ b.key := by
      refine hperm.pairwise (l.ascending.imp Key.ne_of_before) ?_
      exact fun h => Ne.symm h
    exact (List.pairwise_cons.1 hsorted).1 c hc rfl
  · rintro ⟨hc, hne⟩
    exact (List.mem_eraseP_of_neg (by simpa using hne)).2 hc

theorem mem_delete {l l' : Ledger} {c d : Credential} (h : l.delete c = .ok l') :
    d ∈ l'.records ↔ d ∈ l.records ∧ d.key ≠ c.key := by
  rw [(delete_eq_ok_iff.1 h).2, mem_erase]

theorem under_delete_of_ne {l l' : Ledger} {c : Credential} {name : String}
    (h : l.delete c = .ok l') (hne : c.channelName ≠ name) :
    under name l'.records = under name l.records := by
  obtain ⟨d, hperm, hkey, -⟩ := exists_removed_of_delete h
  have hname : d.channelName ≠ name := by
    rw [show d.channelName = c.channelName from congrArg Key.name hkey]
    exact hne
  have hunder : (under name l.records).Perm (under name (d :: l'.records)) := hperm.filter _
  rw [under_cons, if_neg hname] at hunder
  exact under_eq_of_perm hunder.symm

theorem length_under_delete {l l' : Ledger} {c : Credential} (h : l.delete c = .ok l')
    (name : String) :
    (under name l'.records).length + (under name [c]).length =
      (under name l.records).length := by
  obtain ⟨d, hperm, hkey, -⟩ := exists_removed_of_delete h
  have hname : d.channelName = c.channelName := congrArg Key.name hkey
  have hlength : (under name l.records).length = (under name (d :: l'.records)).length :=
    (hperm.filter _).length_eq
  rw [hlength, under_cons, under_cons, hname]
  split
  · simp
  · simp

/-! ## A ledger without some records -/

theorem nodup (l : Ledger) : l.records.Nodup :=
  l.ascending.imp fun h hsame => Key.ne_of_before h (congrArg Credential.key hsame)

/-- A ledger is determined by which records it holds. -/
theorem ext_mem {l m : Ledger} (h : ∀ c, c ∈ l.records ↔ c ∈ m.records) : l = m := by
  refine ext (List.Perm.eq_of_pairwise ?_ l.ascending m.ascending ?_)
  · intro c d _ _ hcd hdc
    exact absurd (hcd.trans hdc) (Key.not_before_self c.key)
  · exact (List.perm_ext_iff_of_nodup l.nodup m.nodup).2 h

/-- All records but some. -/
def without (l : Ledger) (gone : List Credential) : Ledger :=
  ⟨l.records.filter (· ∉ gone), l.ascending.filter _⟩

@[simp] theorem mem_without {l : Ledger} {gone : List Credential} {c : Credential} :
    c ∈ (l.without gone).records ↔ c ∈ l.records ∧ c ∉ gone := by
  simp [without]

@[simp] theorem without_nil (l : Ledger) : l.without [] = l :=
  ext_mem fun c => by simp

theorem without_without (l : Ledger) (gone more : List Credential) :
    (l.without gone).without more = l.without (gone ++ more) :=
  ext_mem fun c => by simp [and_assoc]

/-- A delete of a record that is there leaves the others. -/
theorem delete_of_mem {l : Ledger} {c : Credential} (hc : c ∈ l.records) :
    l.delete c = .ok (l.without [c]) := by
  refine delete_eq_ok_iff.2 ⟨⟨c, hc, rfl, rfl⟩, ext_mem fun d => ?_⟩
  rw [mem_erase, mem_without, List.mem_singleton]
  exact and_congr_right fun hd =>
    not_congr ⟨fun h => congrArg Credential.key h, fun h => eq_of_key_eq hd hc h⟩

/-- A delete of a record that is gone finds nothing. -/
theorem delete_of_gone {l : Ledger} {gone : List Credential} {c : Credential}
    (hc : c ∈ l.records) (hgone : c ∈ gone) :
    (l.without gone).delete c = .error (.noMatch c.channelName c.version) := by
  refine delete_eq_error_iff.2 ⟨fun d hd hkey => ?_, rfl⟩
  obtain ⟨hd, hnot⟩ := mem_without.1 hd
  obtain rfl := eq_of_key_eq hd hc hkey
  exact absurd hgone hnot

end Ledger

end ChannelRelay
