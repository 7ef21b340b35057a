import ChannelRelay.Metrics
import Mathlib

/-!
# Counting

The counters of a family stand in the order of their label values, whatever has been
counted (`ordered_after`).  So a label value has one counter, and counting adds to
that one alone (`Ordered.get_after`).
-/

namespace ChannelRelay

namespace Counts

/-- Counters in the order of their label values, one for each. -/
def Ordered (counts : Counts) : Prop := counts.Pairwise fun a b => a.1 < b.1

theorem get_cons (value : String) (c : String × Nat) (counts : Counts) :
    Counts.get value (c :: counts) = if value = c.1 then c.2 else Counts.get value counts := by
  obtain ⟨v, m⟩ := c
  by_cases h : value = v
  · simp [Counts.get, h]
  · have hne : (value == v) = false := by simpa using h
    simp [Counts.get, List.lookup, hne, h]

/-- A label value that comes before all others has not been counted. -/
theorem get_eq_zero {value : String} {counts : Counts} (h : ∀ c ∈ counts, value < c.1) :
    counts.get value = 0 := by
  induction counts with
  | nil => rfl
  | cons c counts ih =>
      have hne : value ≠ c.1 := ne_of_lt (h c List.mem_cons_self)
      rw [get_cons, if_neg hne]
      exact ih fun d hd => h d (List.mem_cons_of_mem c hd)

/-- The label values that have a counter. -/
def labels (counts : Counts) : List String := counts.map Prod.fst

/-- Counting gives its label value a counter, and takes none away. -/
theorem mem_labels_add {value : String} {n : Nat} {counts : Counts} {label : String} :
    label ∈ (counts.add value n).labels ↔ label = value ∨ label ∈ counts.labels := by
  induction counts with
  | nil => simp [Counts.add, labels]
  | cons d counts ih =>
      obtain ⟨v, m⟩ := d
      simp only [labels, List.map_cons, List.mem_cons] at ih ⊢
      simp only [Counts.add]
      split
      · simp only [List.map_cons, List.mem_cons]
      · split
        · rename_i hsame
          subst hsame
          simp only [List.map_cons, List.mem_cons, or_self_left]
        · rw [List.map_cons, List.mem_cons, ih, or_left_comm]

theorem Ordered.add {counts : Counts} (h : counts.Ordered) (value : String) (n : Nat) :
    (counts.add value n).Ordered := by
  induction counts with
  | nil => exact List.pairwise_singleton _ _
  | cons d counts ih =>
      obtain ⟨v, m⟩ := d
      obtain ⟨hfirst, hrest⟩ := List.pairwise_cons.1 h
      simp only [Counts.add]
      split
      · rename_i hlt
        refine List.pairwise_cons.2 ⟨fun c hc => ?_, h⟩
        rcases List.mem_cons.1 hc with rfl | hc
        · exact hlt
        · exact lt_trans hlt (hfirst c hc)
      · rename_i hnot
        split
        · exact List.pairwise_cons.2 ⟨hfirst, hrest⟩
        · rename_i hne
          refine List.pairwise_cons.2 ⟨fun c hc => ?_, ih hrest⟩
          show v < c.1
          rcases mem_labels_add.1 (List.mem_map_of_mem hc) with hvalue | hlabel
          · rw [hvalue]
            exact lt_of_le_of_ne (not_lt.1 hnot) (Ne.symm hne)
          · obtain ⟨d, hd, hdc⟩ := List.mem_map.1 hlabel
            rw [← hdc]
            exact hfirst d hd

/-- No label value has two counters. -/
theorem Ordered.nodup_labels {counts : Counts} (h : counts.Ordered) : counts.labels.Nodup :=
  List.pairwise_map.2 (h.imp fun hlt => ne_of_lt hlt)

/-- Counting adds to the counter of one label value. -/
theorem Ordered.get_add {counts : Counts} (h : counts.Ordered) (value other : String)
    (n : Nat) :
    (counts.add value n).get other = counts.get other + if value = other then n else 0 := by
  induction counts with
  | nil =>
      show Counts.get other [(value, n)] = 0 + _
      rw [get_cons, Nat.zero_add]
      by_cases hsame : other = value
      · rw [if_pos hsame, if_pos hsame.symm]
      · rw [if_neg hsame, if_neg (Ne.symm hsame)]
        rfl
  | cons d counts ih =>
      obtain ⟨v, m⟩ := d
      obtain ⟨hfirst, hrest⟩ := List.pairwise_cons.1 h
      simp only [Counts.add]
      split
      · rename_i hlt
        have hzero : Counts.get value ((v, m) :: counts) = 0 := by
          refine get_eq_zero fun c hc => ?_
          rcases List.mem_cons.1 hc with rfl | hc
          · exact hlt
          · exact lt_trans hlt (hfirst c hc)
        rw [get_cons]
        by_cases hsame : other = value
        · rw [if_pos hsame, if_pos hsame.symm, hsame, hzero, Nat.zero_add]
        · rw [if_neg hsame, if_neg (Ne.symm hsame), Nat.add_zero]
      · split
        · rename_i hsame
          subst hsame
          rw [get_cons, get_cons]
          by_cases hother : other = value
          · rw [if_pos hother, if_pos hother, if_pos hother.symm]
          · rw [if_neg hother, if_neg hother, if_neg (Ne.symm hother), Nat.add_zero]
        · rename_i hne
          rw [get_cons, get_cons, ih hrest]
          by_cases hother : other = v
          · have hvalue : value ≠ other := fun h => hne (h.trans hother)
            rw [if_pos hother, if_pos hother, if_neg hvalue, Nat.add_zero]
          · rw [if_neg hother, if_neg hother]

/-- What has been counted under all label values together. -/
def total (counts : Counts) : Nat := (counts.map Prod.snd).sum

theorem total_add (counts : Counts) (value : String) (n : Nat) :
    (counts.add value n).total = counts.total + n := by
  induction counts with
  | nil => simp [Counts.add, total]
  | cons c rest ih =>
      obtain ⟨v, m⟩ := c
      simp only [total, List.map_cons, List.sum_cons] at ih ⊢
      simp only [Counts.add]
      split
      · simp only [List.map_cons, List.sum_cons]
        omega
      · split
        · simp only [List.map_cons, List.sum_cons]
          omega
        · simp only [List.map_cons, List.sum_cons, ih]
          omega

end Counts

namespace Metrics

/-- The counters after some events were counted. -/
def after (m : Metrics) (events : List (Family × String)) : Metrics :=
  events.foldl (fun m e => m.count e.1 e.2) m

/-- The counters of every family in their order. -/
def Ordered (m : Metrics) : Prop := ∀ family, (m.of family).Ordered

theorem ordered_zero : zero.Ordered := by
  intro family
  cases family <;> exact List.Pairwise.nil

theorem of_count (m : Metrics) (family other : Family) (value : String) :
    (m.count family value).of other =
      if family = other then (m.of other).add value 1 else m.of other := by
  cases family <;> cases other <;> rfl

theorem Ordered.count {m : Metrics} (h : m.Ordered) (family : Family) (value : String) :
    (m.count family value).Ordered := by
  intro other
  rw [of_count]
  split
  · exact (h other).add value 1
  · exact h other

theorem ordered_after {m : Metrics} (h : m.Ordered) (events : List (Family × String)) :
    (m.after events).Ordered := by
  induction events generalizing m with
  | nil => exact h
  | cons e events ih => exact ih (h.count e.1 e.2)

/-- A counter has grown by the number of its events. -/
theorem Ordered.get_after {m : Metrics} (h : m.Ordered) (events : List (Family × String))
    (family : Family) (value : String) :
    ((m.after events).of family).get value =
      (m.of family).get value + events.count (family, value) := by
  induction events generalizing m with
  | nil => rfl
  | cons e events ih =>
      obtain ⟨f, v⟩ := e
      have hrest := ih (h.count f v)
      show (((m.count f v).after events).of family).get value = _
      rw [hrest, of_count, List.count_cons]
      by_cases hfamily : f = family
      · subst hfamily
        rw [if_pos rfl, (h f).get_add]
        by_cases hvalue : v = value
        · simp [hvalue]
          omega
        · simp [hvalue]
      · simp [hfamily]

/-- The label values of a family are those that were counted. -/
theorem mem_labels_after {m : Metrics} {events : List (Family × String)} (family : Family)
    {label : String} :
    label ∈ ((m.after events).of family).labels ↔
      (family, label) ∈ events ∨ label ∈ (m.of family).labels := by
  induction events generalizing m with
  | nil => simp [after]
  | cons e events ih =>
      obtain ⟨f, v⟩ := e
      show label ∈ (((m.count f v).after events).of family).labels ↔ _
      rw [ih, of_count, List.mem_cons, Prod.mk.injEq]
      by_cases hfamily : f = family
      · subst hfamily
        rw [if_pos rfl, Counts.mem_labels_add]
        tauto
      · rw [if_neg hfamily]
        simp [Ne.symm hfamily]

/-- The counters of a family add up to what was counted in it. -/
theorem total_after (m : Metrics) (events : List (Family × String)) (family : Family) :
    ((m.after events).of family).total =
      (m.of family).total + events.countP (·.1 = family) := by
  induction events generalizing m with
  | nil => rfl
  | cons e events ih =>
      obtain ⟨f, v⟩ := e
      show (((m.count f v).after events).of family).total = _
      rw [ih, of_count, List.countP_cons]
      by_cases hfamily : f = family
      · simp [hfamily, Counts.total_add]
        omega
      · simp [hfamily]

end Metrics

end ChannelRelay
