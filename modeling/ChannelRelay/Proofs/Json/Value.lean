import ChannelRelay.Json.Document
import Mathlib.Data.String.Basic
import Mathlib.Order.Lattice

/-!
# Parts of a value

What lies inside a value, and how deep.  The members of an object that was put together with
`Members.set` are in ascending order of their keys, and each key has the value it was given last.
-/

namespace ChannelRelay

namespace Json

/-- To prove something of every value, prove it of an array from its items and of an object from
the values of its members. -/
theorem induction {p : Json → Prop} (null : p .null) (bool : ∀ b, p (.bool b))
    (int : ∀ n, p (.int n)) (float : ∀ x, p (.float x)) (text : ∀ s, p (.text s))
    (array : ∀ items, (∀ v ∈ items, p v) → p (.array items))
    (object : ∀ members : Members, (∀ m ∈ members, p m.2) → p (.object members)) (v : Json) :
    p v :=
  match v with
  | .null => null
  | .bool b => bool b
  | .int n => int n
  | .float x => float x
  | .text s => text s
  | .array items => array items fun v _ => induction null bool int float text array object v
  | .object members =>
      object members fun m _ => induction null bool int float text array object m.2
termination_by sizeOf v
decreasing_by
  · have := List.sizeOf_lt_of_mem ‹_ ∈ items›
    simp only [Json.array.sizeOf_spec]
    omega
  · have := List.sizeOf_lt_of_mem ‹_ ∈ members›
    obtain ⟨key, value⟩ := m
    simp only [Prod.mk.sizeOf_spec] at this
    simp only [Json.object.sizeOf_spec]
    omega

/-! ## Members -/

namespace Members

/-- The keys ascend, so none of them comes twice. -/
def Ascending (members : Members) : Prop :=
  members.Pairwise fun a b => a.1 < b.1

variable {key : String} {value : Json} {members : Members}

theorem mem_set {m : String × Json} (h : m ∈ members.set key value) :
    m = (key, value) ∨ m ∈ members := by
  induction members with
  | nil => exact Or.inl (List.mem_singleton.1 h)
  | cons n rest ih =>
      obtain ⟨k, v⟩ := n
      rw [set] at h
      split at h
      · exact List.mem_cons.1 h
      · split at h
        · exact (List.mem_cons.1 h).imp_right (List.mem_cons_of_mem _)
        · rcases List.mem_cons.1 h with rfl | h
          · exact Or.inr List.mem_cons_self
          · exact (ih h).imp_right (List.mem_cons_of_mem _)

/-- The keys stay, and the one that is given a value is among them. -/
theorem mem_keys_set {other : String} :
    other ∈ (members.set key value).map Prod.fst ↔
      other = key ∨ other ∈ members.map Prod.fst := by
  induction members with
  | nil => simp [set]
  | cons n rest ih =>
      obtain ⟨k, v⟩ := n
      rw [set]
      split
      · simp
      · split
        · rename_i hsame
          simp [hsame]
        · rw [List.map_cons, List.mem_cons, ih, List.map_cons, List.mem_cons]
          exact or_left_comm

theorem Ascending.set (h : members.Ascending) : (members.set key value).Ascending := by
  induction members with
  | nil => exact List.pairwise_singleton _ _
  | cons n rest ih =>
      obtain ⟨k, v⟩ := n
      obtain ⟨hleast, hrest⟩ := List.pairwise_cons.1 h
      rw [Members.set]
      split
      · rename_i hlt
        refine List.pairwise_cons.2 ⟨fun m hm => ?_, h⟩
        rcases List.mem_cons.1 hm with rfl | hm
        · exact hlt
        · exact lt_trans hlt (hleast m hm)
      · split
        · rename_i hsame
          subst hsame
          exact List.pairwise_cons.2 ⟨hleast, hrest⟩
        · rename_i hnot hne
          refine List.pairwise_cons.2 ⟨fun m hm => ?_, ih hrest⟩
          rcases mem_set hm with rfl | hm
          · exact lt_of_le_of_ne (not_lt.1 hnot) (Ne.symm hne)
          · exact hleast m hm

/-- The key takes the place of the member that had it, and the others stay. -/
theorem mem_set_iff (h : members.Ascending) {m : String × Json} :
    m ∈ members.set key value ↔ m = (key, value) ∨ (m ∈ members ∧ m.1 ≠ key) := by
  induction members with
  | nil => simp [Members.set]
  | cons n rest ih =>
      obtain ⟨k, v⟩ := n
      obtain ⟨hleast, hrest⟩ := List.pairwise_cons.1 h
      rw [Members.set]
      split
      · rename_i hlt
        rw [List.mem_cons]
        refine or_congr_right (iff_self_and.2 fun hm => ?_)
        rcases List.mem_cons.1 hm with rfl | hm
        · exact hlt.ne'
        · exact (lt_trans hlt (hleast m hm)).ne'
      · split
        · rename_i hsame
          subst hsame
          rw [List.mem_cons, List.mem_cons]
          refine or_congr_right ⟨fun hm => ⟨Or.inr hm, (hleast m hm).ne'⟩, ?_⟩
          rintro ⟨rfl | hm, hne⟩
          · exact absurd rfl hne
          · exact hm
        · rename_i hne
          rw [List.mem_cons, List.mem_cons, ih hrest]
          constructor
          · rintro (rfl | rfl | ⟨hm, hother⟩)
            · exact Or.inr ⟨Or.inl rfl, Ne.symm hne⟩
            · exact Or.inl rfl
            · exact Or.inr ⟨Or.inr hm, hother⟩
          · rintro (rfl | ⟨rfl | hm, hother⟩)
            · exact Or.inr (Or.inl rfl)
            · exact Or.inl rfl
            · exact Or.inr (Or.inr ⟨hm, hother⟩)

theorem set_of_greater (h : ∀ m ∈ members, m.1 < key) :
    members.set key value = members ++ [(key, value)] := by
  induction members with
  | nil => rfl
  | cons n rest ih =>
      have hlt : n.1 < key := h n List.mem_cons_self
      rw [set, if_neg (lt_asymm hlt), if_neg hlt.ne',
        ih fun m hm => h m (List.mem_cons_of_mem _ hm), List.cons_append]

/-- Members that are set in their order. -/
theorem foldl_set_of_ascending {done : Members} (h : Ascending (done ++ members)) :
    members.foldl (fun done m => done.set m.1 m.2) done = done ++ members := by
  induction members generalizing done with
  | nil => exact (List.append_nil done).symm
  | cons m rest ih =>
      have hlast : done.set m.1 m.2 = done ++ [m] :=
        set_of_greater fun n hn => (List.pairwise_append.1 h).2.2 n hn m List.mem_cons_self
      rw [List.foldl_cons, hlast, ih (by rwa [List.append_assoc]), List.append_assoc]
      rfl

/-! ### Members that are set one after the other -/

theorem mem_of_mem_foldl_set {m : String × Json} {done : Members}
    (h : m ∈ members.foldl (fun done m => done.set m.1 m.2) done) : m ∈ members ∨ m ∈ done := by
  induction members generalizing done with
  | nil => exact Or.inr h
  | cons n rest ih =>
      rcases ih h with hrest | hdone
      · exact Or.inl (List.mem_cons_of_mem _ hrest)
      · rcases mem_set hdone with rfl | hdone
        · exact Or.inl List.mem_cons_self
        · exact Or.inr hdone

theorem mem_keys_foldl_set {done : Members}
    (h : key ∈ members.map Prod.fst ∨ key ∈ done.map Prod.fst) :
    key ∈ (members.foldl (fun done m => done.set m.1 m.2) done).map Prod.fst := by
  induction members generalizing done with
  | nil => exact h.resolve_left (by simp)
  | cons n rest ih =>
      refine ih ?_
      rw [mem_keys_set]
      rcases h with hkey | hdone
      · rcases List.mem_cons.1 hkey with rfl | hrest
        · exact Or.inr (Or.inl rfl)
        · exact Or.inl hrest
      · exact Or.inr (Or.inr hdone)

theorem ascending_foldl_set {done : Members} (h : done.Ascending) :
    Ascending (members.foldl (fun done m => done.set m.1 m.2) done) := by
  induction members generalizing done with
  | nil => exact h
  | cons n rest ih => exact ih h.set

end Members

/-! ## Parts -/

/-- The parts of a value are the value itself and the parts of its items and members. -/
inductive Part : Json → Json → Prop where
  | self (v : Json) : Part v v
  | item {u v : Json} {items : List Json} (hmem : v ∈ items) (h : Part u v) :
      Part u (.array items)
  | member {u : Json} {m : String × Json} {members : Members} (hmem : m ∈ members)
      (h : Part u m.2) : Part u (.object members)

mutual

/-- How many arrays and objects of a value lie inside each other. -/
def levels : Json → Nat
  | .array items => itemLevels items + 1
  | .object members => memberLevels members + 1
  | _ => 0

/-- The most levels that an item has. -/
def itemLevels : List Json → Nat
  | [] => 0
  | v :: rest => max v.levels (itemLevels rest)

/-- The most levels that the value of a member has. -/
def memberLevels : Members → Nat
  | [] => 0
  | (_, v) :: rest => max v.levels (memberLevels rest)

end

variable {u v w : Json} {items : List Json} {members : Members}

theorem part_array_iff :
    Part u (.array items) ↔ u = .array items ∨ ∃ v ∈ items, Part u v := by
  constructor
  · intro h
    cases h with
    | self => exact Or.inl rfl
    | item hmem h => exact Or.inr ⟨_, hmem, h⟩
  · rintro (rfl | ⟨v, hmem, h⟩)
    · exact .self _
    · exact .item hmem h

theorem part_object_iff :
    Part u (.object members) ↔ u = .object members ∨ ∃ m ∈ members, Part u m.2 := by
  constructor
  · intro h
    cases h with
    | self => exact Or.inl rfl
    | member hmem h => exact Or.inr ⟨_, hmem, h⟩
  · rintro (rfl | ⟨m, hmem, h⟩)
    · exact .self _
    · exact .member hmem h

theorem Part.trans (h : Part u v) (h' : Part v w) : Part u w := by
  induction h' with
  | self => exact h
  | item hmem _ ih => exact .item hmem ih
  | member hmem _ ih => exact .member hmem ih

theorem itemLevels_le_iff {n : Nat} : itemLevels items ≤ n ↔ ∀ v ∈ items, v.levels ≤ n := by
  induction items with
  | nil => simp [itemLevels]
  | cons v rest ih => rw [itemLevels, max_le_iff, ih, List.forall_mem_cons]

theorem memberLevels_le_iff {n : Nat} :
    memberLevels members ≤ n ↔ ∀ m ∈ members, m.2.levels ≤ n := by
  induction members with
  | nil => simp [memberLevels]
  | cons m rest ih => rw [memberLevels, max_le_iff, ih, List.forall_mem_cons]

/-- The value is no array and no object. -/
def isLeaf : Json → Bool
  | .array _ => false
  | .object _ => false
  | _ => true

theorem not_part_of_isLeaf (h : v.isLeaf = true) : ¬ Part (.object members) v := by
  intro hpart
  cases hpart with
  | self => exact absurd h (by simp [isLeaf])
  | item => exact absurd h (by simp [isLeaf])
  | member => exact absurd h (by simp [isLeaf])

theorem levels_of_isLeaf (h : v.isLeaf = true) : v.levels = 0 := by
  cases v with
  | array items => exact absurd h (by simp [isLeaf])
  | object members => exact absurd h (by simp [isLeaf])
  | _ => rfl

/-! ## Values of payloads -/

/-- The double that `-0` is read as. -/
def negativeZero : Binary64 := ⟨true, .zero⟩

/-- The number is an integer of 64 bits, with a sign or without. -/
def IsInteger (n : Int) : Prop :=
  -9223372036854775808 ≤ n ∧ n ≤ 18446744073709551615

/-- Every number in the value is an integer of 64 bits, or the zero that `-0` is read as. -/
def IsWhole (v : Json) : Prop :=
  (∀ n, Part (.int n) v → IsInteger n) ∧ ∀ x, Part (.float x) v → x = negativeZero

theorem IsWhole.part (h : v.IsWhole) (hpart : Part u v) : u.IsWhole :=
  ⟨fun n hn => h.1 n (hn.trans hpart), fun x hx => h.2 x (hx.trans hpart)⟩

theorem isWhole_int {n : Int} (h : IsInteger n) : (Json.int n).IsWhole := by
  refine ⟨fun m hpart => ?_, fun _ hpart => nomatch hpart⟩
  cases hpart
  exact h

theorem isWhole_text (s : String) : (Json.text s).IsWhole :=
  ⟨fun _ hpart => (nomatch hpart), fun _ hpart => (nomatch hpart)⟩

theorem isWhole_object (h : ∀ m ∈ members, m.2.IsWhole) : (Json.object members).IsWhole := by
  constructor
  · intro n hpart
    obtain hself | ⟨m, hm, hpart⟩ := part_object_iff.1 hpart
    · exact absurd hself (by simp)
    · exact (h m hm).1 n hpart
  · intro x hpart
    obtain hself | ⟨m, hm, hpart⟩ := part_object_iff.1 hpart
    · exact absurd hself (by simp)
    · exact (h m hm).2 x hpart

/-- The members of every object in the value ascend, and nowhere does the key of embedded texts
stand alone. -/
def IsRegular (v : Json) : Prop :=
  ∀ members : Members, Part (.object members) v →
    members.Ascending ∧ ∀ value, members ≠ [(Document.embeddingKey, value)]

theorem IsRegular.part (h : v.IsRegular) (hpart : Part u v) : u.IsRegular :=
  fun members hmembers => h members (hmembers.trans hpart)

theorem isRegular_of_isLeaf (h : v.isLeaf = true) : v.IsRegular :=
  fun _ hpart => absurd hpart (not_part_of_isLeaf h)

theorem isRegular_array (h : ∀ v ∈ items, v.IsRegular) : (Json.array items).IsRegular := by
  intro members hpart
  obtain hself | ⟨v, hv, hpart⟩ := part_array_iff.1 hpart
  · exact absurd hself (by simp)
  · exact h v hv members hpart

theorem isRegular_object (hascending : members.Ascending)
    (hkey : ∀ value, members ≠ [(Document.embeddingKey, value)])
    (h : ∀ m ∈ members, m.2.IsRegular) : (Json.object members).IsRegular := by
  intro inner hpart
  obtain hself | ⟨m, hm, hpart⟩ := part_object_iff.1 hpart
  · obtain rfl := Json.object.inj hself
    exact ⟨hascending, hkey⟩
  · exact h m hm inner hpart

/-- The text of a value is read as the value: its arrays and objects are not too deep in each
other, and none of the objects begins like one that stands for an embedded text. -/
def Fits (depth : Nat) (v : Json) : Prop :=
  v.levels ≤ depth ∧ ∀ value rest, ¬ Part (.object ((Document.embeddingKey, value) :: rest)) v

theorem fits_of_isLeaf (h : v.isLeaf = true) (depth : Nat) : v.Fits depth :=
  ⟨(levels_of_isLeaf h).trans_le (Nat.zero_le _), fun _ _ => not_part_of_isLeaf h⟩

theorem fits_array_iff {depth : Nat} :
    Fits (depth + 1) (.array items) ↔ ∀ v ∈ items, v.Fits depth := by
  constructor
  · rintro ⟨hlevels, hfree⟩ v hv
    exact ⟨itemLevels_le_iff.1 (Nat.le_of_succ_le_succ hlevels) v hv,
      fun value rest h => hfree value rest (.item hv h)⟩
  · intro h
    refine ⟨Nat.succ_le_succ (itemLevels_le_iff.2 fun v hv => (h v hv).1), ?_⟩
    intro value rest hpart
    obtain hself | ⟨v, hv, hpart⟩ := part_array_iff.1 hpart
    · exact absurd hself (by simp)
    · exact (h v hv).2 value rest hpart

theorem fits_object_iff {depth : Nat} :
    Fits (depth + 1) (.object members) ↔
      (∀ value rest, members ≠ (Document.embeddingKey, value) :: rest) ∧
        ∀ m ∈ members, m.2.Fits depth := by
  constructor
  · rintro ⟨hlevels, hfree⟩
    refine ⟨fun value rest h => hfree value rest (h ▸ .self _), fun m hm => ?_⟩
    exact ⟨memberLevels_le_iff.1 (Nat.le_of_succ_le_succ hlevels) m hm,
      fun value rest h => hfree value rest (.member hm h)⟩
  · rintro ⟨hfirst, h⟩
    refine ⟨Nat.succ_le_succ (memberLevels_le_iff.2 fun m hm => (h m hm).1), ?_⟩
    intro value rest hpart
    obtain hself | ⟨m, hm, hpart⟩ := part_object_iff.1 hpart
    · exact hfirst value rest (Json.object.inj hself).symm
    · exact (h m hm).2 value rest hpart

end Json

end ChannelRelay
