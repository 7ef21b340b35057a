import ChannelRelay.Number.Power
import ChannelRelay.Text.Decimal
import Mathlib.Data.Int.Order.Basic
import Mathlib.Data.List.Induction

/-!
# Reading numerals

A text is read as a number exactly if it denotes the number, that is if it is one or more digits
with one sign before them or none, and if the number lies in the range that is asked for
(`readInt?_eq_some_iff`; an unsigned number takes no minus, `readNat?_eq_some_iff`).  The text that
a number is written as denotes it (`denotes_toString`).  With zeros in front a number fills the
width that it is given (`length_padded`), and it is the only way to fill it
(`toList_padded_ofDigits`).
-/

namespace ChannelRelay.Decimal

/-- One or more digits. -/
def IsRun (digits : List Char) : Prop :=
  digits ≠ [] ∧ ∀ c ∈ digits, '0' ≤ c ∧ c ≤ '9'

/-- The number that a text denotes: digits with a sign before them or none. -/
inductive Denotes : List Char → Int → Prop where
  | bare {digits : List Char} (h : IsRun digits) : Denotes digits (Nat.ofDigitChars 10 digits 0)
  | plus {digits : List Char} (h : IsRun digits) :
      Denotes ('+' :: digits) (Nat.ofDigitChars 10 digits 0)
  | minus {digits : List Char} (h : IsRun digits) :
      Denotes ('-' :: digits) (-(Nat.ofDigitChars 10 digits 0))

/-! ## Runs of digits -/

theorem ofDigits_eq (digits : List Char) : ofDigits digits = Nat.ofDigitChars 10 digits 0 := by
  rw [Nat.ofDigitChars_eq_foldl, ofDigits]
  refine congrArg (fun f => digits.foldl f 0) (funext fun n => funext fun c => ?_)
  rw [follow, Nat.mul_comm]

theorem isDigit_iff {c : Char} : isDigit c = true ↔ '0' ≤ c ∧ c ≤ '9' := by
  simp [isDigit]

theorem toNat_of_isDigit {c : Char} (h : isDigit c = true) :
    '0'.toNat ≤ c.toNat ∧ c.toNat ≤ '9'.toNat := isDigit_iff.1 h

theorem ofDigits_concat (digits : List Char) (c : Char) :
    ofDigits (digits ++ [c]) = ofDigits digits * 10 + (c.toNat - '0'.toNat) := by
  rw [ofDigits, List.foldl_append]
  rfl

/-- A number is less than any that has more digits. -/
theorem ofDigits_lt {digits : List Char} (h : ∀ c ∈ digits, isDigit c = true) :
    ofDigits digits < tenTo digits.length := by
  induction digits using List.reverseRecOn with
  | nil => decide
  | append_singleton digits c ih =>
      have hdigits := ih fun d hd => h d (List.mem_append_left _ hd)
      have hlast := toNat_of_isDigit (h c (List.mem_append_right _ List.mem_cons_self))
      rw [ofDigits_concat, List.length_append, List.length_singleton]
      simp only [Char.reduceToNat] at hlast ⊢
      show _ < tenTo digits.length * 10
      omega

/-- Equally many digits that denote the same number are the same. -/
theorem eq_of_ofDigits_eq {digits others : List Char} (hdigits : ∀ c ∈ digits, isDigit c = true)
    (hothers : ∀ c ∈ others, isDigit c = true) (hlength : digits.length = others.length)
    (h : ofDigits digits = ofDigits others) : digits = others := by
  induction digits using List.reverseRecOn generalizing others with
  | nil => exact (List.length_eq_zero_iff.1 hlength.symm).symm
  | append_singleton digits c ih =>
      rcases List.eq_nil_or_concat others with rfl | ⟨others, d, rfl⟩
      · exact absurd hlength (by simp)
      · rw [List.concat_eq_append] at *
        rw [ofDigits_concat, ofDigits_concat] at h
        have hc := toNat_of_isDigit (hdigits c (List.mem_append_right _ List.mem_cons_self))
        have hd := toNat_of_isDigit (hothers d (List.mem_append_right _ List.mem_cons_self))
        simp only [Char.reduceToNat] at hc hd h
        obtain rfl : c = d := Char.toNat_inj.1 (by omega)
        have hfirst : digits = others :=
          ih (fun e he => hdigits e (List.mem_append_left _ he))
            (fun e he => hothers e (List.mem_append_left _ he)) (by simpa using hlength) (by omega)
        rw [hfirst]

/-- Digits are read as the number that they denote, if it is not too large. -/
theorem read?_eq_some_iff {largest n : Nat} {digits : List Char} :
    read? largest digits = some n ↔
      IsRun digits ∧ n = Nat.ofDigitChars 10 digits 0 ∧ n ≤ largest := by
  have hrun : (digits.isEmpty || !digits.all isDigit) = false ↔ IsRun digits := by
    simp only [Bool.or_eq_false_iff, List.isEmpty_eq_false_iff, Bool.not_eq_false',
      List.all_eq_true, isDigit_iff]
    rfl
  unfold read?
  rw [upTo?_eq, ofDigits_eq]
  constructor
  · intro h
    split at h
    · exact absurd h (by simp)
    · rename_i hguard
      obtain ⟨hvalue, hle⟩ := Option.filter_eq_some_iff.1 h
      obtain rfl := Option.some.inj hvalue
      exact ⟨hrun.1 (by simpa using hguard), rfl, by simpa using hle⟩
  · rintro ⟨hdigits, rfl, hle⟩
    rw [hrun.2 hdigits, if_neg (by simp)]
    exact Option.filter_eq_some_iff.2 ⟨rfl, by simpa using hle⟩

/-- No sign is a digit. -/
theorem IsRun.sign_free {sign : Char} {digits : List Char} (h : IsRun (sign :: digits)) :
    sign ≠ '+' ∧ sign ≠ '-' := by
  have hsign := h.2 sign List.mem_cons_self
  constructor
  · rintro rfl
    exact absurd hsign (by decide)
  · rintro rfl
    exact absurd hsign (by decide)

/-! ## Numerals -/

/-- What a text denotes, by the sign that it begins with. -/
theorem denotes_plus_iff {digits : List Char} {n : Int} :
    Denotes ('+' :: digits) n ↔ IsRun digits ∧ n = Nat.ofDigitChars 10 digits 0 := by
  constructor
  · intro h
    cases h with
    | bare h => exact absurd rfl h.sign_free.1
    | plus h => exact ⟨h, rfl⟩
  · rintro ⟨h, rfl⟩
    exact .plus h

theorem denotes_minus_iff {digits : List Char} {n : Int} :
    Denotes ('-' :: digits) n ↔ IsRun digits ∧ n = -(Nat.ofDigitChars 10 digits 0 : Int) := by
  constructor
  · intro h
    cases h with
    | bare h => exact absurd rfl h.sign_free.2
    | minus h => exact ⟨h, rfl⟩
  · rintro ⟨h, rfl⟩
    exact .minus h

theorem denotes_bare_iff {digits : List Char} {n : Int} (hplus : ∀ rest, digits ≠ '+' :: rest)
    (hminus : ∀ rest, digits ≠ '-' :: rest) :
    Denotes digits n ↔ IsRun digits ∧ n = Nat.ofDigitChars 10 digits 0 := by
  constructor
  · intro h
    cases h with
    | bare h => exact ⟨h, rfl⟩
    | plus h => exact absurd rfl (hplus _)
    | minus h => exact absurd rfl (hminus _)
  · rintro ⟨h, rfl⟩
    exact .bare h

theorem map_read?_eq_some_iff {largest : Nat} {digits : List Char} {f : Nat → Int} {n : Int} :
    (read? largest digits).map f = some n ↔
      (IsRun digits ∧ n = f (Nat.ofDigitChars 10 digits 0)) ∧
        Nat.ofDigitChars 10 digits 0 ≤ largest := by
  rw [Option.map_eq_some_iff]
  constructor
  · rintro ⟨m, hm, rfl⟩
    obtain ⟨hrun, rfl, hle⟩ := read?_eq_some_iff.1 hm
    exact ⟨⟨hrun, rfl⟩, hle⟩
  · rintro ⟨⟨hrun, rfl⟩, hle⟩
    exact ⟨_, read?_eq_some_iff.2 ⟨hrun, rfl, hle⟩, rfl⟩

/-- A text is read as a number exactly if it denotes the number and the number is in range. -/
theorem readInt?_eq_some_iff {least largest n : Int} {text : String} (hleast : least ≤ 0)
    (hlargest : 0 ≤ largest) :
    readInt? least largest text = some n ↔
      Denotes text.toList n ∧ least ≤ n ∧ n ≤ largest := by
  unfold readInt?
  dsimp only
  rw [Option.filter_eq_some_iff]
  simp only [Bool.and_eq_true, decide_eq_true_eq]
  -- The digits are read with a bound of their own, which the range implies.
  refine and_congr_left fun hrange => ?_
  split
  · rename_i digits htext
    rw [htext, denotes_plus_iff, map_read?_eq_some_iff, Int.ofNat_eq_natCast]
    refine and_iff_left_of_imp ?_
    rintro ⟨-, rfl⟩
    omega
  · rename_i digits htext
    rw [htext, denotes_minus_iff, map_read?_eq_some_iff, Int.ofNat_eq_natCast]
    refine and_iff_left_of_imp ?_
    rintro ⟨-, rfl⟩
    omega
  · rename_i hplus hminus
    rw [denotes_bare_iff hplus hminus, map_read?_eq_some_iff, Int.ofNat_eq_natCast]
    refine and_iff_left_of_imp ?_
    rintro ⟨-, rfl⟩
    omega

/-- A text is read as an unsigned number exactly if it denotes the number, without a minus sign,
and the number is in range. -/
theorem readNat?_eq_some_iff {largest n : Nat} {text : String} :
    readNat? largest text = some n ↔
      Denotes text.toList n ∧ text.toList.head? ≠ some '-' ∧ n ≤ largest := by
  unfold readNat?
  split
  · rename_i digits htext
    have hsign : text.toList.head? ≠ some '-' := by simp [htext]
    rw [read?_eq_some_iff, and_iff_right hsign, htext, denotes_plus_iff, Int.natCast_inj,
      and_assoc]
  · rename_i hplus
    rw [read?_eq_some_iff]
    by_cases hminus : text.toList.head? = some '-'
    · -- A minus sign is no digit.
      simp only [hminus, ne_eq, not_true, false_and, and_false, iff_false]
      rintro ⟨hrun, -⟩
      obtain ⟨digits, hdigits⟩ := List.head?_eq_some_iff.1 hminus
      rw [hdigits] at hrun
      exact hrun.sign_free.2 rfl
    · have hbare : ∀ rest, text.toList ≠ '-' :: rest := by
        intro rest htext
        exact hminus (by rw [htext]; rfl)
      rw [denotes_bare_iff hplus hbare, Int.natCast_inj, and_assoc, and_iff_right hminus]

/-- A text denotes at most one number. -/
theorem Denotes.unique {text : List Char} {m n : Int} (hm : Denotes text m)
    (hn : Denotes text n) : m = n := by
  -- Both are what is read from the text in a range that holds them.
  have hread : ∀ k, Denotes text k → k = m ∨ k = n →
      readInt? (min 0 (min m n)) (max 0 (max m n)) (String.ofList text) = some k := by
    intro k hk hmn
    rw [readInt?_eq_some_iff (by omega) (by omega), String.toList_ofList]
    exact ⟨hk, by omega, by omega⟩
  have hsame := hread m hm (Or.inl rfl)
  rw [hread n hn (Or.inr rfl)] at hsame
  exact (Option.some.inj hsame).symm

/-- A numeral consists of signs and digits. -/
theorem Denotes.mem {text : List Char} {n : Int} (h : Denotes text n) {c : Char}
    (hc : c ∈ text) : c = '+' ∨ c = '-' ∨ ('0' ≤ c ∧ c ≤ '9') := by
  cases h with
  | bare h => exact Or.inr (Or.inr (h.2 c hc))
  | plus h =>
      rcases List.mem_cons.1 hc with rfl | hc
      · exact Or.inl rfl
      · exact Or.inr (Or.inr (h.2 c hc))
  | minus h =>
      rcases List.mem_cons.1 hc with rfl | hc
      · exact Or.inr (Or.inl rfl)
      · exact Or.inr (Or.inr (h.2 c hc))

/-! ## Written numbers -/

theorem isRun_toDigits (n : Nat) : IsRun (Nat.toDigits 10 n) := by
  refine ⟨Nat.toDigits_ne_nil, fun c hc => ?_⟩
  have hdigit := Char.isDigit_iff_toNat.1 (Nat.isDigit_of_mem_toDigits (by decide) (by decide) hc)
  exact ⟨hdigit.1, hdigit.2⟩

/-- A number is written as a numeral that denotes it. -/
theorem denotes_toString (n : Int) : Denotes (toString n).toList n := by
  rw [Int.toString_eq_repr, Int.repr_eq_if]
  split
  · have h := Denotes.bare (isRun_toDigits n.toNat)
    rw [Nat.ofDigitChars_ten_toDigits, Int.toNat_of_nonneg (by omega)] at h
    rw [Nat.toList_repr]
    exact h
  · have h := Denotes.minus (isRun_toDigits (-n).toNat)
    rw [Nat.ofDigitChars_ten_toDigits, Int.toNat_of_nonneg (by omega), Int.neg_neg] at h
    rw [String.toList_append, Nat.toList_repr]
    exact h

section Padded

variable {width n : Nat}

theorem toList_padded (width n : Nat) :
    (padded width n).toList =
      List.replicate (width - (Nat.toDigits 10 n).length) '0' ++ Nat.toDigits 10 n := by
  rw [padded, String.toList_ofList]
  rfl

theorem isRun_padded (width n : Nat) : IsRun (padded width n).toList := by
  rw [toList_padded]
  refine ⟨by simp [(isRun_toDigits n).1], fun c hc => ?_⟩
  rcases List.mem_append.1 hc with hc | hc
  · rw [List.eq_of_mem_replicate hc]
    decide
  · exact (isRun_toDigits n).2 c hc

/-- Zeros in front do not change a number. -/
theorem ofDigits_padded (width n : Nat) : ofDigits (padded width n).toList = n := by
  rw [ofDigits_eq, toList_padded, Nat.ofDigitChars_append, Nat.ofDigitChars_replicate_zero,
    Nat.mul_zero, Nat.ofDigitChars_ten_toDigits]

/-- A number that has room is written with all the digits of the width. -/
theorem length_padded (hwidth : 0 < width) (h : n < tenTo width) :
    (padded width n).toList.length = width := by
  have hdigits := (Nat.length_toDigits_le_iff (by decide) hwidth).2 h
  rw [toList_padded, List.length_append, List.length_replicate]
  omega

/-- Digits that fill a width are those that their number is written with. -/
theorem toList_padded_ofDigits {digits : List Char} (hsome : digits ≠ [])
    (h : ∀ c ∈ digits, isDigit c = true) :
    (padded digits.length (ofDigits digits)).toList = digits := by
  have hrun := isRun_padded digits.length (ofDigits digits)
  exact eq_of_ofDigits_eq (fun c hc => isDigit_iff.2 (hrun.2 c hc)) h
    (length_padded (List.length_pos_iff.2 hsome) (ofDigits_lt h)) (ofDigits_padded _ _)

end Padded

end ChannelRelay.Decimal
