import ChannelRelay.Json.Printer
import ChannelRelay.Json.Token
import ChannelRelay.Proofs.Json.Value
import ChannelRelay.Proofs.Text.Decimal
import Mathlib.Tactic.IntervalCases

/-!
# Tokens are read as they are written

A string between its quotes, the numeral of an integer, the marks and the words are each read as
the one token they were written for, whatever follows.  Only a numeral needs more: what follows it
must not continue it.
-/

namespace ChannelRelay.Json

/-! ## Strings -/

section Strings

variable {c : Char} {cs rest later : List Char}

theorem hexDigit?_digitChar {n : Nat} (h : n < 16) : hexDigit? (Nat.digitChar n) = some n := by
  interval_cases n <;> rfl

/-- The escape of a control character. -/
theorem escape?_control (h : c < ' ') (rest : List Char) :
    escape? ('u' :: '0' :: '0' :: Nat.digitChar (c.toNat / 16) :: Nat.digitChar (c.toNat % 16) ::
      rest) = some (some c, rest) := by
  have hsmall : c.toNat < 32 := h
  have hhigh := hexDigit?_digitChar (show c.toNat / 16 < 16 by omega)
  have hlow := hexDigit?_digitChar (show c.toNat % 16 < 16 by omega)
  have hunit : unit? ('0' :: '0' :: Nat.digitChar (c.toNat / 16) :: Nat.digitChar (c.toNat % 16) ::
      rest) = some (c.toNat, rest) := by
    have hzero : hexDigit? '0' = some 0 := rfl
    simp only [unit?, hzero, hhigh, hlow, Option.bind_eq_bind, Option.bind_some, pure]
    rw [show ((0 * 16 + 0) * 16 + c.toNat / 16) * 16 + c.toNat % 16 = c.toNat by omega]
  rw [escape?, hunit, Option.map_some, character, if_pos (Or.inl (by omega)), Char.ofNat_toNat]

theorem stringFrom?_escape {x : Option Char} (h : escape? rest = some (x, later))
    (done : Option (List Char)) :
    stringFrom? done ('\\' :: rest) =
      stringFrom? (done.bind fun cs => x.map (· :: cs)) later := by
  rw [stringFrom?, if_neg (by decide), if_pos rfl]
  split
  · rename_i hnone
    exact absurd (h.symm.trans hnone) (by simp)
  · rename_i hsome
    obtain ⟨rfl, rfl⟩ := Prod.mk.inj (Option.some.inj (h.symm.trans hsome))
    rfl

/-- A character is written as a letter after a backslash, as a UTF-16 unit, or as it is. -/
theorem escaped_cases (c : Char) :
    (∃ x, x ≠ 'u' ∧ shortEscape? x = some c ∧ escaped c = ['\\', x]) ∨
      (c < ' ' ∧ escaped c = ['\\', 'u', '0', '0', Nat.digitChar (c.toNat / 16),
        Nat.digitChar (c.toNat % 16)]) ∨
      (c ≠ '"' ∧ c ≠ '\\' ∧ ¬ c < ' ' ∧ escaped c = [c]) := by
  by_cases hshort : c = '"' ∨ c = '\\' ∨ c = '\x08' ∨ c = '\x0c' ∨ c = '\n' ∨ c = '\r' ∨ c = '\t'
  · refine Or.inl ?_
    rcases hshort with rfl | rfl | rfl | rfl | rfl | rfl | rfl
    all_goals exact ⟨_, by decide, by decide, rfl⟩
  · simp only [not_or] at hshort
    obtain ⟨hquote, hslash, hback, hfeed, hline, hreturn, htab⟩ := hshort
    refine Or.inr ?_
    unfold escaped
    rw [if_neg hquote, if_neg hslash, if_neg hback, if_neg hfeed, if_neg hline, if_neg hreturn,
      if_neg htab]
    by_cases hcontrol : c < ' '
    · exact Or.inl ⟨hcontrol, if_pos hcontrol⟩
    · exact Or.inr ⟨hquote, hslash, hcontrol, if_neg hcontrol⟩

/-- A character is read as it is written. -/
theorem stringFrom?_escaped (c : Char) (done rest : List Char) :
    stringFrom? (some done) (escaped c ++ rest) = stringFrom? (some (c :: done)) rest := by
  rcases escaped_cases c with ⟨x, hx, hshort, hc⟩ | ⟨hcontrol, hc⟩ | ⟨hquote, hslash, hcontrol, hc⟩
  · have hescape : escape? (x :: rest) = some (some c, rest) := by
      rw [escape?, hshort, Option.map_some]
      exact fun h => hx h
    rw [hc]
    exact stringFrom?_escape hescape _
  · rw [hc]
    exact stringFrom?_escape (escape?_control hcontrol rest) _
  · rw [hc, List.singleton_append, stringFrom?, if_neg hquote, if_neg hslash, if_neg hcontrol]
    rfl

theorem stringFrom?_flatMap_escaped (cs done rest : List Char) :
    stringFrom? (some done) (cs.flatMap escaped ++ '"' :: rest) =
      some (some (String.ofList (done.reverse ++ cs)), rest) := by
  induction cs generalizing done with
  | nil =>
      rw [List.flatMap_nil, List.nil_append, stringFrom?, if_pos rfl, List.append_nil]
      rfl
  | cons c cs ih =>
      rw [List.flatMap_cons, List.append_assoc, stringFrom?_escaped, ih, List.reverse_cons,
        List.append_assoc]
      rfl

/-- A string is read as it is written. -/
theorem next?_quoted (s : String) (rest : List Char) :
    Token.next? ((quoted s).toList ++ rest) = some (.text (some s), rest) := by
  have hchars : (quoted s).toList ++ rest = '"' :: (s.toList.flatMap escaped ++ '"' :: rest) := by
    simp [quoted]
  rw [hchars, Token.next?, stringFrom?_flatMap_escaped, List.reverse_nil, List.nil_append,
    String.ofList_toList]
  rfl

end Strings

/-! ## Numerals -/

section Numerals

variable {n : Int} {digits rest : List Char}

/-- The text does not continue a numeral. -/
def EndsNumeral (rest : List Char) : Prop :=
  ∀ c ∈ rest.head?, Decimal.isDigit c = false ∧ c ≠ '.' ∧ c ≠ 'e' ∧ c ≠ 'E'

theorem digits?_append (hdigits : Decimal.IsRun digits)
    (hrest : ∀ c ∈ rest.head?, Decimal.isDigit c = false) :
    digits? (digits ++ rest) = some (digits, rest) := by
  have hall : ∀ c ∈ digits, Decimal.isDigit c = true :=
    fun c hc => Decimal.isDigit_iff.2 (hdigits.2 c hc)
  have htake : rest.takeWhile Decimal.isDigit = [] := by
    cases rest with
    | nil => rfl
    | cons c rest => exact List.takeWhile_cons_of_neg (by simp [hrest c rfl])
  have hdrop : rest.dropWhile Decimal.isDigit = rest := by
    cases rest with
    | nil => rfl
    | cons c rest => exact List.dropWhile_cons_of_neg (by simp [hrest c rfl])
  rw [digits?, List.takeWhile_append_of_pos hall, List.dropWhile_append_of_pos hall, htake, hdrop,
    List.append_nil]
  exact if_neg (by simpa using hdigits.1)

/-- Only zero is written with a zero in front. -/
theorem head?_toDigits {m : Nat} (h : 0 < m) : (Nat.toDigits 10 m).head? ≠ some '0' := by
  induction m using Nat.strongRecOn with
  | ind m ih =>
      by_cases hsmall : m < 10
      · rw [Nat.toDigits_of_lt_base hsmall]
        interval_cases m <;> decide
      · rw [Nat.toDigits_of_base_le (by decide) (Nat.le_of_not_lt hsmall),
          List.head?_append_of_ne_nil _ Nat.toDigits_ne_nil]
        exact ih (m / 10) (by omega) (by omega)

theorem wholePart?_toDigits (m : Nat) (hrest : ∀ c ∈ rest.head?, Decimal.isDigit c = false) :
    wholePart? (Nat.toDigits 10 m ++ rest) = some (Nat.toDigits 10 m, rest) := by
  rcases Nat.eq_zero_or_pos m with rfl | hpos
  · rfl
  · rw [wholePart?, digits?_append (Decimal.isRun_toDigits m) hrest]
    intro later h
    refine head?_toDigits hpos ?_
    rw [← List.head?_append_of_ne_nil _ Nat.toDigits_ne_nil, h]
    rfl

theorem fraction?_of_ends (h : EndsNumeral rest) : fraction? rest = some (none, rest) := by
  rw [fraction?]
  rintro later rfl
  exact (h '.' rfl).2.1 rfl

theorem exponent?_of_ends (h : EndsNumeral rest) : exponent? rest = some (none, rest) := by
  cases rest with
  | nil => rfl
  | cons c rest =>
      obtain ⟨-, -, hlower, hupper⟩ := h c rfl
      unfold exponent?
      exact if_neg (by simp [hlower, hupper])

theorem toList_toString (n : Int) :
    (toString n).toList =
      if n < 0 then '-' :: Nat.toDigits 10 n.natAbs else Nat.toDigits 10 n.natAbs := by
  rw [Int.toString_eq_repr, Int.repr_eq_if]
  by_cases hnegative : n < 0
  · rw [if_neg (Int.not_le.2 hnegative), if_pos hnegative, String.toList_append, Nat.toList_repr,
      show (-n).toNat = n.natAbs by omega]
    rfl
  · rw [if_pos (Int.not_lt.1 hnegative), if_neg hnegative, Nat.toList_repr,
      show n.toNat = n.natAbs by omega]

theorem head?_digits_append (m : Nat) (rest : List Char) :
    ∃ d ds, Nat.toDigits 10 m ++ rest = d :: ds ∧ Decimal.isDigit d = true := by
  obtain ⟨hne, hdigits⟩ := Decimal.isRun_toDigits m
  obtain ⟨d, ds, h⟩ := List.exists_cons_of_ne_nil hne
  rw [h] at hdigits ⊢
  exact ⟨d, ds ++ rest, rfl, Decimal.isDigit_iff.2 (hdigits d List.mem_cons_self)⟩

/-- An integer is read as it is written. -/
theorem numeral?_toString (n : Int) (h : EndsNumeral rest) :
    numeral? ((toString n).toList ++ rest) = some (.ofInt n, rest) := by
  have hwhole := wholePart?_toDigits n.natAbs fun c hc => (h c hc).1
  rw [toList_toString]
  by_cases hnegative : n < 0
  · rw [if_pos hnegative, List.cons_append]
    simp only [numeral?, hwhole, Option.bind_eq_bind, Option.bind_some, fraction?_of_ends h,
      exponent?_of_ends h, pure, Numeral.ofInt, hnegative, decide_true]
  · rw [if_neg hnegative]
    obtain ⟨d, ds, hchars, hdigit⟩ := head?_digits_append n.natAbs rest
    rw [hchars] at hwhole ⊢
    have hsign : d ≠ '-' := by
      rintro rfl
      exact absurd hdigit (by decide)
    simp only [numeral?, Option.bind_eq_bind]
    split
    · rename_i later hminus
      exact absurd (List.cons.inj hminus).1 hsign
    · simp only [hwhole, Option.bind_some, fraction?_of_ends h, exponent?_of_ends h, pure,
        Numeral.ofInt, hnegative, decide_false]

/-- The numeral that the negative zero is written as. -/
def zeroNumeral : Numeral := ⟨true, ['0'], some ['0'], none⟩

theorem toList_doubleText_negativeZero :
    (doubleText negativeZero).toList = ['-', '0', '.', '0'] :=
  String.toList_ofList

/-- The negative zero is read as it is written. -/
theorem numeral?_negativeZero (h : EndsNumeral rest) :
    numeral? ((doubleText negativeZero).toList ++ rest) = some (zeroNumeral, rest) := by
  have hzero := digits?_append (Decimal.isRun_toDigits 0) fun c hc => (h c hc).1
  rw [Nat.toDigits_zero, List.singleton_append] at hzero
  rw [toList_doubleText_negativeZero]
  simp only [List.cons_append, List.nil_append, numeral?, wholePart?, fraction?, hzero,
    Option.bind_eq_bind, Option.bind_some, exponent?_of_ends h, pure, Option.map_some, zeroNumeral]

/-- A text that begins like a numeral is read as one. -/
theorem next?_of_numeral {c : Char} {m : Numeral} {later : List Char}
    (hc : c = '-' ∨ Decimal.isDigit c = true) (h : numeral? (c :: rest) = some (m, later)) :
    Token.next? (c :: rest) = some (.number m, later) := by
  rw [Token.next?, h]
  · rfl
  all_goals
    rintro rfl
    exact absurd hc (by decide)

theorem next?_toString (n : Int) (h : EndsNumeral rest) :
    Token.next? ((toString n).toList ++ rest) = some (.number (.ofInt n), rest) := by
  have hread := numeral?_toString n h
  rw [toList_toString] at hread ⊢
  by_cases hnegative : n < 0
  · rw [if_pos hnegative] at hread ⊢
    exact next?_of_numeral (Or.inl rfl) hread
  · rw [if_neg hnegative] at hread ⊢
    obtain ⟨d, ds, hchars, hdigit⟩ := head?_digits_append n.natAbs rest
    rw [hchars] at hread ⊢
    exact next?_of_numeral (Or.inr hdigit) hread

theorem next?_negativeZero (h : EndsNumeral rest) :
    Token.next? ((doubleText negativeZero).toList ++ rest) =
      some (.number zeroNumeral, rest) := by
  have hread := numeral?_negativeZero h
  rw [toList_doubleText_negativeZero] at hread ⊢
  exact next?_of_numeral (Or.inl rfl) hread

/-! ### What numerals denote -/

theorem gather_of_fits {register : Nat} (h : digits.foldl Decimal.follow register ≤ registerLimit) :
    gather register digits = (digits.foldl Decimal.follow register, []) := by
  induction digits generalizing register with
  | nil => rfl
  | cons c rest ih =>
      have hnext : Decimal.follow register c ≤ registerLimit :=
        Nat.le_trans (Decimal.le_foldl_follow _ rest) h
      rw [gather, if_pos hnext]
      exact ih h

/-- The numeral of an integer of 64 bits denotes it. -/
theorem value?_ofInt (h : IsInteger n) : (Numeral.ofInt n).value? = some (.int n) := by
  obtain ⟨hleast, hgreatest⟩ := h
  have hlimit : registerLimit = 18446744073709551615 := rfl
  have hdigits : (Nat.toDigits 10 n.natAbs).foldl Decimal.follow 0 = n.natAbs := by
    rw [← Decimal.ofDigits, Decimal.ofDigits_eq, Nat.ofDigitChars_ten_toDigits]
  have hgather : gather 0 (Nat.toDigits 10 n.natAbs) = (n.natAbs, []) := by
    rw [gather_of_fits (by omega), hdigits]
  have hvalue : (Numeral.ofInt n).value? = whole? (decide (n < 0)) n.natAbs := by
    simp [Numeral.value?, Numeral.gathered, Numeral.ofInt, hgather]
  rw [hvalue, whole?]
  by_cases hnegative : n < 0
  · have hfits : (n.natAbs == 0 || decide (UInt64.size / 2 < n.natAbs)) = false := by
      simp only [Bool.or_eq_false_iff, beq_eq_false_iff_ne, decide_eq_false_iff_not, UInt64.size]
      omega
    rw [decide_eq_true hnegative, hfits]
    simp only [Bool.and_false, Bool.false_eq_true, if_false, if_true]
    rw [show -(n.natAbs : Int) = n by omega]
  · rw [decide_eq_false hnegative]
    simp only [Bool.false_and, Bool.false_eq_true, if_false]
    rw [show (n.natAbs : Int) = n by omega]

/-- The negative zero is denoted by what it is written as. -/
theorem value?_zeroNumeral : zeroNumeral.value? = some (.float negativeZero) := by
  -- Zero over ten is zero, and the sign is kept.
  have hten : Magnitude.tenTo? 1 = some ⟨5629499534213120, -49⟩ := by decide +kernel
  have hover : Magnitude.zero.div? ⟨5629499534213120, -49⟩ = some .zero := by decide +kernel
  have htimes : Magnitude.zero.timesTenTo? (-1) = some .zero := by
    rw [Magnitude.timesTenTo?, if_pos (by decide), Int.natAbs_neg, Int.natAbs_one, hten]
    exact hover
  have hzero : Magnitude.ofRatio? 0 1 = some .zero := by decide
  have hvalue : zeroNumeral.value? = double? true 0 (-1) := rfl
  rw [hvalue, double?, hzero, Option.bind_eq_bind, Option.bind_some, htimes]
  rfl

end Numerals

/-! ## Marks and words -/

theorem next?_comma (rest : List Char) : Token.next? (',' :: rest) = some (.comma, rest) := rfl

theorem next?_colon (rest : List Char) : Token.next? (':' :: rest) = some (.colon, rest) := rfl

theorem next?_closeArray (rest : List Char) :
    Token.next? (']' :: rest) = some (.closeArray, rest) := rfl

theorem next?_closeObject (rest : List Char) :
    Token.next? ('\x7d' :: rest) = some (.closeObject, rest) := rfl

theorem next?_null (rest : List Char) :
    Token.next? ("null".toList ++ rest) = some (.null, rest) := rfl

theorem next?_true (rest : List Char) :
    Token.next? ("true".toList ++ rest) = some (.bool true, rest) := rfl

theorem next?_false (rest : List Char) :
    Token.next? ("false".toList ++ rest) = some (.bool false, rest) := rfl

end ChannelRelay.Json
