import ChannelRelay.Reconcile.Plan
import Mathlib.Data.List.Basic

/-!
# What a plan finds

A plan finds three kinds of drift, and `of_classifies` says exactly which records give rise to
which of them: the records of archived channels, the live records whose channel has another name,
and the names under which one channel has two live tokens.

Records may come in any order and the listing may name an id more than once; its last entry
decides.  `Picks` says that a list of findings follows a list of records in order, one for each
record that has one.
-/

namespace ChannelRelay.Plan

/-- The entry that decides about its id: no later entry has it. -/
def Decides (channels : List Channel) (channel : Channel) : Prop :=
  ∃ before after, channels = before ++ channel :: after ∧
    ∀ later ∈ after, later.id ≠ channel.id

/-- The channel of a record is archived. -/
def IsRetired (channels : List Channel) (c : Credential) : Prop :=
  ∃ channel, Decides channels channel ∧ channel.id = c.channelId ∧ channel.isArchived = true

/-- Two records of one channel under one name that hold different tokens. -/
def Partners (c d : Credential) : Prop :=
  c.channelName = d.channelName ∧ c.channelId = d.channelId ∧ c.token ≠ d.token

/-- A record has a partner among some records. -/
def HasPartner (records : List Credential) (c : Credential) : Prop :=
  ∃ d ∈ records, Partners c d

/-- What follows from the items of a list, in their order: one thing for each item from which
something follows, and nothing for the others. -/
inductive Picks {α β : Type} (follows : α → β → Prop) : List α → List β → Prop where
  | nil : Picks follows [] []
  | take {a : α} {b : β} {items : List α} {found : List β} (h : follows a b)
      (hrest : Picks follows items found) : Picks follows (a :: items) (b :: found)
  | skip {a : α} {items : List α} {found : List β} (h : ∀ b, ¬ follows a b)
      (hrest : Picks follows items found) : Picks follows (a :: items) found

theorem picks_filterMap {α β : Type} {follows : α → β → Prop} {f : α → Option β}
    (hf : ∀ a b, f a = some b ↔ follows a b) (items : List α) :
    Picks follows items (items.filterMap f) := by
  induction items with
  | nil => exact .nil
  | cons a items ih =>
      cases h : f a with
      | none =>
          rw [List.filterMap_cons_none h]
          refine .skip (fun b hb => ?_) ih
          rw [(hf a b).2 hb] at h
          exact absurd h (by simp)
      | some b =>
          rw [List.filterMap_cons_some h]
          exact .take ((hf a b).1 h) ih

/-! ## The deciding entry -/

section Listing

variable {channels : List Channel} {c : Credential}

theorem listed?_eq_some_iff {id : String} {channel : Channel} :
    listed? channels id = some channel ↔ Decides channels channel ∧ channel.id = id := by
  rw [listed?, List.findRev?_eq_find?_reverse, List.find?_eq_some_iff_append]
  constructor
  · rintro ⟨hid, after, before, hsplit, hafter⟩
    have hid : channel.id = id := by simpa using hid
    refine ⟨⟨before.reverse, after.reverse, ?_, ?_⟩, hid⟩
    · rw [← List.reverse_reverse channels, hsplit]
      simp
    · intro later hlater
      have hne := hafter later (List.mem_reverse.1 hlater)
      rw [hid]
      simpa using hne
  · rintro ⟨⟨before, after, hsplit, hafter⟩, hid⟩
    refine ⟨by simpa using hid, after.reverse, before.reverse, by simp [hsplit], ?_⟩
    intro later hlater
    have hne := hafter later (List.mem_reverse.1 hlater)
    rw [hid] at hne
    simpa using hne

theorem archived?_eq_some_iff {a : ArchivedRecord} :
    archived? channels c = some a ↔
      ∃ channel, Decides channels channel ∧ channel.id = c.channelId ∧
        channel.isArchived = true ∧ a = ⟨c, channel.name⟩ := by
  unfold archived?
  constructor
  · intro h
    split at h
    · rename_i channel hlisted
      obtain ⟨hdecides, hid⟩ := listed?_eq_some_iff.1 hlisted
      split at h
      · rename_i harchived
        exact ⟨channel, hdecides, hid, harchived, (Option.some.inj h).symm⟩
      · exact absurd h (by simp)
    · exact absurd h (by simp)
  · rintro ⟨channel, hdecides, hid, harchived, rfl⟩
    rw [listed?_eq_some_iff.2 ⟨hdecides, hid⟩]
    exact if_pos harchived

theorem isRetired_iff : IsRetired channels c ↔ (archived? channels c).isSome := by
  rw [Option.isSome_iff_exists]
  constructor
  · rintro ⟨channel, hdecides, hid, harchived⟩
    exact ⟨_, archived?_eq_some_iff.2 ⟨channel, hdecides, hid, harchived, rfl⟩⟩
  · rintro ⟨a, ha⟩
    obtain ⟨channel, hdecides, hid, harchived, -⟩ := archived?_eq_some_iff.1 ha
    exact ⟨channel, hdecides, hid, harchived⟩

instance (channels : List Channel) (c : Credential) : Decidable (IsRetired channels c) :=
  decidable_of_iff _ isRetired_iff.symm

theorem renaming?_eq_some_iff {r : Renaming} :
    renaming? channels c = some r ↔
      ∃ channel, Decides channels channel ∧ channel.id = c.channelId ∧
        channel.name ≠ c.channelName ∧
        r = ⟨c.channelId, c.channelName, channel.name, c.token⟩ := by
  unfold renaming?
  constructor
  · intro h
    split at h
    · rename_i channel hlisted
      obtain ⟨hdecides, hid⟩ := listed?_eq_some_iff.1 hlisted
      split at h
      · exact absurd h (by simp)
      · rename_i hname
        exact ⟨channel, hdecides, hid, hname, (Option.some.inj h).symm⟩
    · exact absurd h (by simp)
  · rintro ⟨channel, hdecides, hid, hname, rfl⟩
    rw [listed?_eq_some_iff.2 ⟨hdecides, hid⟩]
    exact if_neg hname

end Listing

/-- The records whose channel is not archived. -/
def live (channels : List Channel) (records : List Credential) : List Credential :=
  records.filter fun c => ¬ IsRetired channels c

theorem live_eq (channels : List Channel) (records : List Credential) :
    live channels records = records.filter fun c => (archived? channels c).isNone := by
  refine List.filter_congr fun c _ => ?_
  cases h : archived? channels c with
  | none => simp [isRetired_iff, h]
  | some a => simp [isRetired_iff, h]

theorem live_live (channels : List Channel) (records : List Credential) :
    live channels (live channels records) = live channels records := by
  unfold live
  rw [List.filter_filter]
  simp only [Bool.and_self]

/-! ## Names in migration -/

section Filing

variable {c d : Credential} {filed records : List Credential}

/-- The records stand in strictly ascending order of their names. -/
def Filed (records : List Credential) : Prop :=
  records.Pairwise fun c d => Utf8.encode c.channelName < Utf8.encode d.channelName

theorem name_ne_of_lt (h : Utf8.encode c.channelName < Utf8.encode d.channelName) :
    c.channelName ≠ d.channelName := by
  intro hname
  rw [hname] at h
  exact List.lt_irrefl _ h

theorem name_lt_of_not_lt (h : ¬ Utf8.encode c.channelName < Utf8.encode d.channelName)
    (hname : c.channelName ≠ d.channelName) :
    Utf8.encode d.channelName < Utf8.encode c.channelName := by
  rcases List.le_iff_lt_or_eq.1 (List.not_lt.1 h) with hlt | heq
  · exact hlt
  · exact absurd (Utf8.encode_inj heq).symm hname

/-- Filing a record takes the place of the one of its name and leaves all others. -/
theorem mem_file (hfiled : Filed filed) :
    d ∈ file c filed ↔ d = c ∨ (d ∈ filed ∧ d.channelName ≠ c.channelName) := by
  induction filed with
  | nil => simp [file]
  | cons e rest ih =>
      obtain ⟨hfirst, hrest⟩ := List.pairwise_cons.1 hfiled
      unfold file
      split
      · rename_i hlt
        -- All names that are filed come after that of `c`.
        have hother : ∀ f ∈ e :: rest, f.channelName ≠ c.channelName := by
          intro f hf
          rcases List.mem_cons.1 hf with rfl | hf
          · exact (name_ne_of_lt hlt).symm
          · exact (name_ne_of_lt (List.lt_trans hlt (hfirst f hf))).symm
        rw [List.mem_cons]
        exact or_congr_right ⟨fun h => ⟨h, hother d h⟩, And.left⟩
      · split
        · rename_i hname
          have hother : ∀ f ∈ rest, f.channelName ≠ c.channelName := by
            intro f hf
            rw [hname]
            exact (name_ne_of_lt (hfirst f hf)).symm
          rw [List.mem_cons, List.mem_cons]
          constructor
          · rintro (h | h)
            · exact Or.inl h
            · exact Or.inr ⟨Or.inr h, hother d h⟩
          · rintro (h | ⟨rfl | h, hne⟩)
            · exact Or.inl h
            · exact absurd hname.symm hne
            · exact Or.inr h
        · rename_i hname
          rw [List.mem_cons, List.mem_cons, ih hrest]
          constructor
          · rintro (rfl | rfl | ⟨h, hne⟩)
            · exact Or.inr ⟨Or.inl rfl, Ne.symm hname⟩
            · exact Or.inl rfl
            · exact Or.inr ⟨Or.inr h, hne⟩
          · rintro (rfl | ⟨rfl | h, hne⟩)
            · exact Or.inr (Or.inl rfl)
            · exact Or.inl rfl
            · exact Or.inr (Or.inr ⟨h, hne⟩)

theorem Filed.file (hfiled : Filed filed) : Filed (file c filed) := by
  induction filed with
  | nil => exact List.pairwise_singleton ..
  | cons e rest ih =>
      obtain ⟨hfirst, hrest⟩ := List.pairwise_cons.1 hfiled
      unfold Plan.file
      split
      · rename_i hlt
        refine List.pairwise_cons.2 ⟨fun f hf => ?_, hfiled⟩
        rcases List.mem_cons.1 hf with rfl | hf
        · exact hlt
        · exact List.lt_trans hlt (hfirst f hf)
      · rename_i hlt
        split
        · rename_i hname
          refine List.pairwise_cons.2 ⟨fun f hf => ?_, hrest⟩
          rw [hname]
          exact hfirst f hf
        · rename_i hname
          refine List.pairwise_cons.2 ⟨fun f hf => ?_, ih hrest⟩
          rcases (mem_file hrest).1 hf with rfl | ⟨hf, -⟩
          · exact name_lt_of_not_lt hlt hname
          · exact hfirst f hf

theorem filed_foldl (hfiled : Filed filed) :
    Filed (records.foldl (fun filed c => Plan.file c filed) filed) := by
  induction records generalizing filed with
  | nil => exact hfiled
  | cons c records ih => exact ih hfiled.file

/-- The last record of a name: none after it has that name. -/
def IsLast (records : List Credential) (c : Credential) : Prop :=
  ∃ before after, records = before ++ c :: after ∧ ∀ d ∈ after, d.channelName ≠ c.channelName

theorem isLast_cons {c d : Credential} :
    IsLast (c :: records) d ↔
      IsLast records d ∨ (d = c ∧ ∀ e ∈ records, e.channelName ≠ d.channelName) := by
  constructor
  · rintro ⟨before, after, hsplit, hafter⟩
    cases before with
    | nil =>
        obtain ⟨rfl, rfl⟩ := List.cons.inj hsplit
        exact Or.inr ⟨rfl, hafter⟩
    | cons b before =>
        obtain ⟨rfl, rfl⟩ := List.cons.inj hsplit
        exact Or.inl ⟨before, after, rfl, hafter⟩
  · rintro (⟨before, after, rfl, hafter⟩ | ⟨rfl, hafter⟩)
    · exact ⟨c :: before, after, rfl, hafter⟩
    · exact ⟨[], records, rfl, hafter⟩

/-- When some records have been filed one after the other, the last one of each name is there, and
what was there before stays under the names that none of them has. -/
theorem mem_foldl_file (hfiled : Filed filed) :
    d ∈ records.foldl (fun filed c => Plan.file c filed) filed ↔
      IsLast records d ∨ (d ∈ filed ∧ ∀ e ∈ records, e.channelName ≠ d.channelName) := by
  induction records generalizing filed with
  | nil => simp [IsLast]
  | cons c records ih =>
      rw [List.foldl_cons, ih hfiled.file, mem_file hfiled, isLast_cons, List.forall_mem_cons]
      constructor
      · rintro (h | ⟨rfl | ⟨hd, hne⟩, hnone⟩)
        · exact Or.inl (Or.inl h)
        · exact Or.inl (Or.inr ⟨rfl, hnone⟩)
        · exact Or.inr ⟨hd, hne.symm, hnone⟩
      · rintro ((h | ⟨rfl, hnone⟩) | ⟨hd, hne, hnone⟩)
        · exact Or.inl h
        · exact Or.inr ⟨Or.inl rfl, hnone⟩
        · exact Or.inr ⟨Or.inr ⟨hd, hne.symm⟩, hnone⟩

theorem exists_isLast (hc : c ∈ records) :
    ∃ d, IsLast records d ∧ d.channelName = c.channelName := by
  induction records generalizing c with
  | nil => exact absurd hc List.not_mem_nil
  | cons e records ih =>
      by_cases hlater : ∃ d ∈ records, d.channelName = c.channelName
      · obtain ⟨d, hd, hname⟩ := hlater
        obtain ⟨last, hlast, hsame⟩ := ih hd
        exact ⟨last, isLast_cons.2 (Or.inl hlast), hsame.trans hname⟩
      · push Not at hlater
        rcases List.mem_cons.1 hc with rfl | hc
        · exact ⟨c, isLast_cons.2 (Or.inr ⟨rfl, hlater⟩), rfl⟩
        · exact absurd rfl (hlater c hc)

theorem isLast_filter_iff {p : Credential → Bool} :
    IsLast (records.filter p) c ↔
      ∃ before after, records = before ++ c :: after ∧ p c = true ∧
        ∀ d ∈ after, p d = true → d.channelName ≠ c.channelName := by
  constructor
  · rintro ⟨first, second, hsplit, hsecond⟩
    obtain ⟨before, rest, rfl, -, hrest⟩ := List.filter_eq_append_iff.1 hsplit
    obtain ⟨skipped, after, rfl, -, hc, rfl⟩ := List.filter_eq_cons_iff.1 hrest
    refine ⟨before ++ skipped, after, by simp, hc, fun d hd hp => ?_⟩
    exact hsecond d (List.mem_filter.2 ⟨hd, hp⟩)
  · rintro ⟨before, after, rfl, hc, hafter⟩
    refine ⟨before.filter p, after.filter p, ?_, fun d hd => ?_⟩
    · rw [List.filter_append, List.filter_cons_of_pos hc]
    · obtain ⟨hd, hp⟩ := List.mem_filter.1 hd
      exact hafter d hd hp

end Filing

theorem isRotating_iff {records : List Credential} {c : Credential} :
    isRotating records c = true ↔ HasPartner records c := by
  unfold isRotating HasPartner Partners
  rw [List.any_eq_true]
  constructor
  · rintro ⟨d, hd, h⟩
    simp only [Bool.and_eq_true, beq_iff_eq, bne_iff_ne] at h
    exact ⟨d, hd, h.1.2.symm, h.1.1.symm, Ne.symm h.2⟩
  · rintro ⟨d, hd, hname, hid, htoken⟩
    refine ⟨d, hd, ?_⟩
    simp only [Bool.and_eq_true, beq_iff_eq, bne_iff_ne]
    exact ⟨⟨hid.symm, hname.symm⟩, Ne.symm htoken⟩

/-- The last of the records of a name that have a partner. -/
def Represents (records : List Credential) (c : Credential) : Prop :=
  ∃ before after, records = before ++ c :: after ∧ HasPartner records c ∧
    ∀ d ∈ after, HasPartner records d → d.channelName ≠ c.channelName

theorem represents_iff {records : List Credential} {c : Credential} :
    Represents records c ↔ IsLast (records.filter (isRotating records)) c := by
  rw [isLast_filter_iff]
  simp only [isRotating_iff]
  rfl

/-- Whenever a record has a partner, its name has a representative. -/
theorem exists_represents {records : List Credential} {c : Credential} (hc : c ∈ records)
    (hpartner : HasPartner records c) :
    ∃ d, Represents records d ∧ d.channelName = c.channelName := by
  have hmem : c ∈ records.filter (isRotating records) :=
    List.mem_filter.2 ⟨hc, isRotating_iff.2 hpartner⟩
  obtain ⟨d, hd, hname⟩ := exists_isLast hmem
  exact ⟨d, represents_iff.2 hd, hname⟩

/-! ## Plans -/

/-- What a plan says about some records and a listing. -/
structure Classifies (channels : List Channel) (records : List Credential) (plan : Plan) :
    Prop where
  /-- The archived records, in the order of the records and with the names that the deciding
  entries have. -/
  archived : Picks (fun c a => ∃ channel, Decides channels channel ∧ channel.id = c.channelId ∧
    channel.isArchived = true ∧ a = ⟨c, channel.name⟩) records plan.archived
  /-- One renaming for each live record whose channel is listed under another name. -/
  renames : Picks (fun c r => ∃ channel, Decides channels channel ∧ channel.id = c.channelId ∧
    channel.name ≠ c.channelName ∧ r = ⟨c.channelId, c.channelName, channel.name, c.token⟩)
    (live channels records) plan.renames
  /-- The names in migration, each once and in ascending order. -/
  ascending : plan.migrations.Pairwise fun c d =>
    Utf8.encode c.channelName < Utf8.encode d.channelName
  /-- A name is in migration if two live records of one channel have it and their tokens differ. -/
  inMigration : ∀ name, (∃ c ∈ plan.migrations, c.channelName = name) ↔
    ∃ c ∈ live channels records, ∃ d ∈ live channels records,
      Partners c d ∧ c.channelName = name
  /-- The record for a name is the last live one of it that has a partner. -/
  represented : ∀ c, c ∈ plan.migrations ↔ Represents (live channels records) c
  /-- No record of an archived channel counts for a migration or a renaming. -/
  liveAlone : Plan.of (live channels records) channels = ⟨[], plan.migrations, plan.renames⟩
  /-- A channel that a renaming names is listed, and not as archived. -/
  listed : ∀ r ∈ plan.renames, ∃ channel, Decides channels channel ∧
    channel.id = r.channelId ∧ channel.name = r.newName ∧ channel.isArchived = false

theorem Picks.exists_of_mem {α β : Type} {follows : α → β → Prop} {items : List α}
    {found : List β} (h : Picks follows items found) {b : β} (hb : b ∈ found) :
    ∃ a ∈ items, follows a b := by
  induction h with
  | nil => exact absurd hb List.not_mem_nil
  | take h _ ih =>
      rcases List.mem_cons.1 hb with rfl | hb
      · exact ⟨_, List.mem_cons_self, h⟩
      · obtain ⟨a, ha, hab⟩ := ih hb
        exact ⟨a, List.mem_cons_of_mem _ ha, hab⟩
  | skip _ _ ih =>
      obtain ⟨a, ha, hab⟩ := ih hb
      exact ⟨a, List.mem_cons_of_mem _ ha, hab⟩

theorem of_eq (records : List Credential) (channels : List Channel) :
    Plan.of records channels =
      ⟨records.filterMap (archived? channels),
        ((live channels records).filter (isRotating (live channels records))).foldl
          (fun filed c => file c filed) [],
        (live channels records).filterMap (renaming? channels)⟩ := by
  rw [live_eq]
  rfl

theorem mem_migrations_iff {records : List Credential} {channels : List Channel}
    {c : Credential} :
    c ∈ (Plan.of records channels).migrations ↔ Represents (live channels records) c := by
  rw [of_eq, represents_iff]
  show c ∈ List.foldl _ _ _ ↔ _
  rw [mem_foldl_file List.Pairwise.nil]
  simp

theorem name_mem_migrations_iff {records : List Credential} {channels : List Channel}
    {name : String} :
    (∃ c ∈ (Plan.of records channels).migrations, c.channelName = name) ↔
      ∃ c ∈ live channels records, ∃ d ∈ live channels records,
        Partners c d ∧ c.channelName = name := by
  constructor
  · rintro ⟨c, hc, hname⟩
    obtain ⟨before, after, hsplit, ⟨d, hd, hpartners⟩, -⟩ := mem_migrations_iff.1 hc
    have hmem : c ∈ live channels records := by
      rw [hsplit]
      exact List.mem_append_right _ List.mem_cons_self
    exact ⟨c, hmem, d, hd, hpartners, hname⟩
  · rintro ⟨c, hc, d, hd, hpartners, rfl⟩
    obtain ⟨e, he, hname⟩ := exists_represents hc ⟨d, hd, hpartners⟩
    exact ⟨e, mem_migrations_iff.2 he, hname⟩

/-- A plan classifies every record by the deciding entry of its channel and by the other live
records of its name. -/
theorem of_classifies (records : List Credential) (channels : List Channel) :
    Classifies channels records (Plan.of records channels) := by
  have hrenames : Picks (fun c r => ∃ channel, Decides channels channel ∧
      channel.id = c.channelId ∧ channel.name ≠ c.channelName ∧
      r = ⟨c.channelId, c.channelName, channel.name, c.token⟩)
      (live channels records) (Plan.of records channels).renames := by
    rw [of_eq]
    exact picks_filterMap (fun _ _ => renaming?_eq_some_iff) _
  refine ⟨?_, hrenames, ?_, fun _ => name_mem_migrations_iff, fun _ => mem_migrations_iff, ?_, ?_⟩
  · exact picks_filterMap (fun _ _ => archived?_eq_some_iff) _
  · rw [of_eq]
    exact filed_foldl List.Pairwise.nil
  · have hnone : (live channels records).filterMap (archived? channels) = [] := by
      rw [List.filterMap_eq_nil_iff]
      intro c hc
      rw [live_eq] at hc
      simpa using (List.mem_filter.1 hc).2
    rw [of_eq, of_eq, live_live, hnone]
  · intro r hr
    obtain ⟨c, hc, channel, hdecides, hid, -, rfl⟩ := hrenames.exists_of_mem hr
    refine ⟨channel, hdecides, hid, rfl, ?_⟩
    have hnot : ¬ IsRetired channels c := by
      simpa using (List.mem_filter.1 hc).2
    by_contra harchived
    exact hnot ⟨channel, hdecides, hid, by simpa using harchived⟩

end ChannelRelay.Plan
