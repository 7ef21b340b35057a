import Mathlib.Data.List.TakeWhile

/-!
# Lists cut at a separator

What stands before the first separator of a list, what stands after it, and what stands between
two of them (`mem_splitOn_iff`).
-/

namespace ChannelRelay.Cut

variable {α : Type} [BEq α] [LawfulBEq α] {a : α} {piece whole : List α}

/-! ## The first separator -/

section First

variable {rest : List α}

theorem ne_of_not_mem (h : a ∉ piece) : ∀ b ∈ piece, (b != a) = true := by
  intro b hb
  rw [bne_iff_ne]
  rintro rfl
  exact h hb

/-- What stands before the first separator. -/
theorem takeWhile_append (h : a ∉ piece) (hrest : rest = [] ∨ ∃ after, rest = a :: after) :
    (piece ++ rest).takeWhile (· != a) = piece := by
  rw [List.takeWhile_append_of_pos (ne_of_not_mem h)]
  rcases hrest with rfl | ⟨after, rfl⟩
  · rw [List.takeWhile_nil, List.append_nil]
  · rw [List.takeWhile_cons_of_neg (by simp), List.append_nil]

/-- What is left from the first separator on. -/
theorem dropWhile_append (h : a ∉ piece) (hrest : rest = [] ∨ ∃ after, rest = a :: after) :
    (piece ++ rest).dropWhile (· != a) = rest := by
  rw [List.dropWhile_append_of_pos (ne_of_not_mem h)]
  rcases hrest with rfl | ⟨after, rfl⟩
  · rfl
  · exact List.dropWhile_cons_of_neg (by simp)

/-- What is left begins with the separator, if anything is left. -/
theorem dropWhile_cases (a : α) (whole : List α) :
    whole.dropWhile (· != a) = [] ∨ ∃ after, whole.dropWhile (· != a) = a :: after := by
  cases h : whole.dropWhile (· != a) with
  | nil => exact Or.inl rfl
  | cons b after =>
      have hne : whole.dropWhile (· != a) ≠ [] := by simp [h]
      have hstop := List.head_dropWhile_not (· != a) hne
      simp only [h, List.head_cons, bne_eq_false_iff_eq] at hstop
      exact Or.inr ⟨after, by rw [hstop]⟩

/-- The first separator of a list tells what stands before it and what stands after it. -/
theorem append_cons_inj {xs ys us vs : List α} (hx : a ∉ xs) (hu : a ∉ us)
    (h : xs ++ a :: ys = us ++ a :: vs) : xs = us ∧ ys = vs := by
  have hbefore := congrArg (List.takeWhile (· != a)) h
  rw [takeWhile_append hx (Or.inr ⟨ys, rfl⟩), takeWhile_append hu (Or.inr ⟨vs, rfl⟩)] at hbefore
  have hafter := congrArg (List.dropWhile (· != a)) h
  rw [dropWhile_append hx (Or.inr ⟨ys, rfl⟩), dropWhile_append hu (Or.inr ⟨vs, rfl⟩)] at hafter
  exact ⟨hbefore, (List.cons.inj hafter).2⟩

end First

/-! ## All pieces -/

/-- A piece stands between two separators, or between one and an end. -/
theorem exists_split_of_mem_splitOn (h : piece ∈ whole.splitOn a) :
    a ∉ piece ∧ ∃ before after, whole = before ++ (piece ++ after) ∧
      (before = [] ∨ ∃ front, before = front ++ [a]) ∧
      (after = [] ∨ ∃ rest, after = a :: rest) := by
  -- The induction is on the rest after the first separator.
  induction hlength : whole.length using Nat.strong_induction_on generalizing whole with
  | _ n ih =>
  by_cases hmem : a ∈ whole
  · obtain ⟨first, rest, rfl, hfirst⟩ := List.eq_append_cons_of_mem hmem
    rw [List.splitOn_append_cons_self, List.splitOn_eq_singleton hfirst, List.singleton_append,
      List.mem_cons] at h
    rcases h with rfl | h
    · exact ⟨hfirst, [], a :: rest, rfl, Or.inl rfl, Or.inr ⟨rest, rfl⟩⟩
    · have hsmaller : rest.length < n := by
        rw [← hlength, List.length_append, List.length_cons]
        omega
      obtain ⟨hpiece, before, after, rfl, hbefore, hafter⟩ := ih rest.length hsmaller h rfl
      refine ⟨hpiece, first ++ a :: before, after, by simp, Or.inr ?_, hafter⟩
      rcases hbefore with rfl | ⟨front, rfl⟩
      · exact ⟨first, rfl⟩
      · exact ⟨first ++ a :: front, by simp⟩
  · rw [List.splitOn_eq_singleton hmem, List.mem_singleton] at h
    subst h
    exact ⟨hmem, [], [], by simp, Or.inl rfl, Or.inl rfl⟩

/-- The pieces of a list are all that stands so. -/
theorem mem_splitOn_iff :
    piece ∈ whole.splitOn a ↔
      a ∉ piece ∧ ∃ before after, whole = before ++ (piece ++ after) ∧
        (before = [] ∨ ∃ front, before = front ++ [a]) ∧
        (after = [] ∨ ∃ rest, after = a :: rest) := by
  refine ⟨exists_split_of_mem_splitOn, ?_⟩
  rintro ⟨hpiece, before, after, rfl, hbefore, hafter⟩
  have hfront : piece ∈ (piece ++ after).splitOn a := by
    rcases hafter with rfl | ⟨rest, rfl⟩
    · rw [List.append_nil, List.splitOn_eq_singleton hpiece]
      exact List.mem_singleton_self piece
    · rw [List.splitOn_append_cons_self, List.splitOn_eq_singleton hpiece]
      exact List.mem_append_left _ (List.mem_singleton_self piece)
  rcases hbefore with rfl | ⟨front, rfl⟩
  · exact hfront
  · rw [List.append_assoc, List.singleton_append, List.splitOn_append_cons_self]
    exact List.mem_append_right _ hfront

end ChannelRelay.Cut
