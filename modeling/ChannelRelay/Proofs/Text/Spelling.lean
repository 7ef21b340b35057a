import ChannelRelay.Proofs.Text.Hex
import ChannelRelay.Proofs.Text.Percent

/-!
# Spellings

What a percent-encoded byte string stands for, as a grammar: an escape stands for its byte, and
every other byte for itself (`decode_eq_iff`).  A text can be spelled in many ways, each character
raw or with all its bytes escaped, and every spelling is decoded as the text
(`decode_encode_of_spells`).
-/

namespace ChannelRelay.Percent

/-! ## Digits -/

/-- A hexadecimal digit of a value, in one of its two cases. -/
def IsDigitOf (n : Nat) (c : Char) : Prop :=
  n < 16 ∧ (c = Nat.digitChar n ∨ c = (Nat.digitChar n).toUpper)

theorem IsDigitOf.isHexDigit {n : Nat} {c : Char} (h : IsDigitOf n c) : IsHexDigit c := by
  unfold IsHexDigit
  obtain ⟨hn, rfl | rfl⟩ := h
  · interval_cases n <;> decide
  · interval_cases n <;> decide

/-- The byte of a digit has the value of the digit. -/
theorem IsDigitOf.value?_eq {n : Nat} {c : Char} (h : IsDigitOf n c) :
    Hex.value? (UInt8.ofNat c.toNat) = some n := by
  obtain ⟨hn, rfl | rfl⟩ := h
  · interval_cases n <;> decide
  · interval_cases n <;> decide

/-- The bytes that have a value are those of its digits. -/
theorem value?_eq_some_iff {b : UInt8} {n : Nat} :
    Hex.value? b = some n ↔ IsDigitOf n (Char.ofNat b.toNat) := by
  constructor
  · intro h
    have hlt := b.toNat_lt
    unfold Hex.value? at h
    simp only [UInt8.le_iff_toNat_le, UInt8.reduceToNat] at h
    generalize b.toNat = k at h hlt ⊢
    split at h
    · obtain rfl := Option.some.inj h
      rename_i hk
      obtain ⟨hlow, hhigh⟩ := hk
      interval_cases k <;> exact ⟨by decide, by decide⟩
    · split at h
      · obtain rfl := Option.some.inj h
        rename_i hk
        obtain ⟨hlow, hhigh⟩ := hk
        interval_cases k <;> exact ⟨by decide, by decide⟩
      · split at h
        · obtain rfl := Option.some.inj h
          rename_i hk
          obtain ⟨hlow, hhigh⟩ := hk
          interval_cases k <;> exact ⟨by decide, by decide⟩
        · exact absurd h (by simp)
  · intro h
    have hvalue := h.value?_eq
    rw [Hex.toNat_ofNat_byte, Utf8.ofNat_eq rfl] at hvalue
    exact hvalue

/-! ## Bytes -/

/-- An escape stands at the start of a byte string. -/
def BeginsEscape (bytes : List UInt8) : Prop :=
  ∃ high low rest h l, bytes = 0x25 :: high :: low :: rest ∧
    IsDigitOf h (Char.ofNat high.toNat) ∧ IsDigitOf l (Char.ofNat low.toNat)

/-- The bytes that a percent-encoded byte string stands for.  A percent sign that two digits do
not follow stands for itself. -/
inductive StandsFor : List UInt8 → List UInt8 → Prop where
  | nil : StandsFor [] []
  | escape {high low : UInt8} {h l : Nat} {rest decoded : List UInt8}
      (hhigh : IsDigitOf h (Char.ofNat high.toNat)) (hlow : IsDigitOf l (Char.ofNat low.toNat))
      (hrest : StandsFor rest decoded) :
      StandsFor (0x25 :: high :: low :: rest) (UInt8.ofNat (h * 16 + l) :: decoded)
  | raw {b : UInt8} {rest decoded : List UInt8} (hraw : ¬ BeginsEscape (b :: rest))
      (hrest : StandsFor rest decoded) : StandsFor (b :: rest) (b :: decoded)

/-- A digit has one value only. -/
theorem IsDigitOf.unique {m n : Nat} {c : Char} (hm : IsDigitOf m c) (hn : IsDigitOf n c) :
    m = n :=
  Option.some.inj (hm.value?_eq.symm.trans hn.value?_eq)

/-- A byte string stands for one byte string only. -/
theorem StandsFor.unique {bytes first second : List UInt8} (hfirst : StandsFor bytes first)
    (hsecond : StandsFor bytes second) : first = second := by
  induction hfirst generalizing second with
  | nil =>
      cases hsecond
      rfl
  | escape hhigh hlow hrest ih =>
      cases hsecond with
      | escape hhigh' hlow' hrest' =>
          obtain rfl := hhigh.unique hhigh'
          obtain rfl := hlow.unique hlow'
          rw [ih hrest']
      | raw hraw _ => exact absurd ⟨_, _, _, _, _, rfl, hhigh, hlow⟩ hraw
  | raw hraw hrest ih =>
      cases hsecond with
      | escape hhigh hlow _ => exact absurd ⟨_, _, _, _, _, rfl, hhigh, hlow⟩ hraw
      | raw _ hrest' => rw [ih hrest']

/-- Decoding finds what the rest stands for, behind what was decoded before. -/
theorem exists_standsFor (done bytes : List UInt8) :
    ∃ decoded, decodeFrom done bytes = done.reverse ++ decoded ∧ StandsFor bytes decoded := by
  fun_induction decodeFrom done bytes with
  | case1 done => exact ⟨[], by simp, .nil⟩
  | case2 done high low later h l hlow hhigh ih =>
      obtain ⟨decoded, hdecode, hlater⟩ := ih
      exact ⟨_, by rw [hdecode]; simp,
        .escape (value?_eq_some_iff.1 hhigh) (value?_eq_some_iff.1 hlow) hlater⟩
  | case3 done high low later hnone ih =>
      obtain ⟨decoded, hdecode, hlater⟩ := ih
      refine ⟨_, by rw [hdecode]; simp, .raw ?_ hlater⟩
      rintro ⟨high', low', rest, h, l, hbytes, hhigh, hlow⟩
      simp only [List.cons.injEq, true_and] at hbytes
      obtain ⟨rfl, rfl, rfl⟩ := hbytes
      exact hnone h l (value?_eq_some_iff.2 hhigh) (value?_eq_some_iff.2 hlow)
  | case4 done short hshort ih =>
      obtain ⟨decoded, hdecode, hlater⟩ := ih
      refine ⟨_, by rw [hdecode]; simp, .raw ?_ hlater⟩
      rintro ⟨high, low, rest, h, l, hbytes, -⟩
      exact hshort high low rest (List.cons.inj hbytes).2
  | case5 done b rest hb ih =>
      obtain ⟨decoded, hdecode, hlater⟩ := ih
      refine ⟨_, by rw [hdecode]; simp, .raw ?_ hlater⟩
      rintro ⟨high, low, later, h, l, hbytes, -⟩
      exact hb (List.cons.inj hbytes).1

/-- A byte string is decoded as what it stands for. -/
theorem decode_eq_iff {bytes decoded : List UInt8} :
    decode bytes = decoded ↔ StandsFor bytes decoded := by
  obtain ⟨found, hfound, hstands⟩ := exists_standsFor [] bytes
  have hdecode : decode bytes = found := hfound
  rw [hdecode]
  constructor
  · rintro rfl
    exact hstands
  · exact hstands.unique

/-! ## Texts -/

/-- A byte written as an escape. -/
def IsEscapeOf (b : UInt8) (cs : List Char) : Prop :=
  ∃ high low, cs = ['%', high, low] ∧ IsDigitOf (b.toNat / 16) high ∧ IsDigitOf (b.toNat % 16) low

/-- A spelling of a text that can stand in a segment: slashes and percent signs are written with
escapes, and of every other character all bytes or none. -/
inductive Spells : List Char → List Char → Prop where
  | nil : Spells [] []
  | raw {c : Char} {text written : List Char} (hslash : c ≠ '/') (hsign : c ≠ '%')
      (hrest : Spells text written) : Spells (c :: text) (c :: written)
  | escaped {c : Char} {text written : List Char} {escapes : List (List Char)}
      (hc : List.Forall₂ IsEscapeOf (String.utf8EncodeChar c) escapes)
      (hrest : Spells text written) : Spells (c :: text) (escapes.flatten ++ written)

/-- An escape as bytes. -/
theorem IsEscapeOf.exists_bytes {b : UInt8} {cs : List Char} (h : IsEscapeOf b cs) :
    ∃ high low, cs.flatMap String.utf8EncodeChar = [0x25, high, low] ∧
      IsDigitOf (b.toNat / 16) (Char.ofNat high.toNat) ∧
      IsDigitOf (b.toNat % 16) (Char.ofNat low.toNat) := by
  obtain ⟨high, low, rfl, hhigh, hlow⟩ := h
  refine ⟨UInt8.ofNat high.toNat, UInt8.ofNat low.toNat, ?_,
    value?_eq_some_iff.1 hhigh.value?_eq, value?_eq_some_iff.1 hlow.value?_eq⟩
  simp only [List.flatMap_cons, List.flatMap_nil, Utf8.encodeChar_ascii hhigh.isHexDigit.lt,
    Utf8.encodeChar_ascii hlow.isHexDigit.lt]
  rfl

theorem IsEscapeOf.slash_not_mem {b : UInt8} {cs : List Char} (h : IsEscapeOf b cs) :
    '/' ∉ cs := by
  obtain ⟨high, low, rfl, hhigh, hlow⟩ := h
  have hslash : ∀ {n c}, IsDigitOf n c → '/' ≠ c := by
    rintro n c hdigit rfl
    exact absurd hdigit.isHexDigit (by unfold IsHexDigit; decide)
  simp only [List.mem_cons, List.not_mem_nil, or_false, not_or]
  exact ⟨by decide, hslash hhigh, hslash hlow⟩

/-- Escapes are decoded as their bytes. -/
theorem decode_escapes {bytes : List UInt8} {escapes : List (List Char)}
    (h : List.Forall₂ IsEscapeOf bytes escapes) (rest : List UInt8) :
    decode (escapes.flatten.flatMap String.utf8EncodeChar ++ rest) = bytes ++ decode rest := by
  induction h with
  | nil => rfl
  | @cons b cs bytes escapes hb _ ih =>
      obtain ⟨high, low, hcs, hhigh, hlow⟩ := hb.exists_bytes
      have hbyte : UInt8.ofNat (b.toNat / 16 * 16 + b.toNat % 16) = b :=
        Utf8.ofNat_eq (by omega)
      have hrest := StandsFor.escape hhigh hlow (decode_eq_iff.1 ih)
      rw [hbyte] at hrest
      rw [List.flatten_cons, List.flatMap_append, hcs, List.append_assoc]
      exact decode_eq_iff.2 hrest

/-- No escape holds a slash. -/
theorem slash_not_mem_escapes {bytes : List UInt8} {escapes : List (List Char)}
    (h : List.Forall₂ IsEscapeOf bytes escapes) : '/' ∉ escapes.flatten := by
  induction h with
  | nil => exact List.not_mem_nil
  | cons hb _ ih =>
      rw [List.flatten_cons, List.mem_append, not_or]
      exact ⟨hb.slash_not_mem, ih⟩

/-- Bytes without a percent sign stay where they are. -/
theorem decode_append {front rest : List UInt8} (h : 0x25 ∉ front) :
    decode (front ++ rest) = front ++ decode rest := by
  induction front with
  | nil => rfl
  | cons b front ih =>
      rw [List.mem_cons, not_or] at h
      rw [List.cons_append, decode_cons (Ne.symm h.1), ih h.2, List.cons_append]

/-- Only the percent sign is written with its byte. -/
theorem sign_not_mem {c : Char} (h : c ≠ '%') : 0x25 ∉ String.utf8EncodeChar c := by
  intro hmem
  obtain ⟨-, hc⟩ := Utf8.encodeChar_of_ascii hmem (by decide)
  exact h (Char.ext (UInt32.toNat_inj.1 hc))

/-- Every spelling of a text is decoded as the text. -/
theorem decode_encode_of_spells {text written : String} (h : Spells text.toList written.toList) :
    decode (Utf8.encode written) = Utf8.encode text := by
  unfold Utf8.encode
  generalize text.toList = cs at h
  generalize written.toList = ds at h
  induction h with
  | nil => exact decode_nil
  | raw _ hsign _ ih =>
      rw [List.flatMap_cons, List.flatMap_cons, decode_append (sign_not_mem hsign), ih]
  | escaped hc _ ih =>
      rw [List.flatMap_append, List.flatMap_cons, decode_escapes hc, ih]

/-- No spelling holds a slash. -/
theorem Spells.slash_not_mem {text written : List Char} (h : Spells text written) :
    '/' ∉ written := by
  induction h with
  | nil => exact List.not_mem_nil
  | raw hslash _ _ ih =>
      rw [List.mem_cons, not_or]
      exact ⟨Ne.symm hslash, ih⟩
  | escaped hc _ ih =>
      rw [List.mem_append, not_or]
      exact ⟨slash_not_mem_escapes hc, ih⟩

/-- Only the empty text has an empty spelling. -/
theorem Spells.ne_nil {text written : List Char} (h : Spells text written) (htext : text ≠ []) :
    written ≠ [] := by
  cases h with
  | nil => exact absurd rfl htext
  | raw => exact List.cons_ne_nil _ _
  | @escaped c _ written escapes hc _ =>
      -- A character has at least one byte, and an escape of it begins the spelling.
      cases hbytes : String.utf8EncodeChar c with
      | nil =>
          have hlength := congrArg List.length hbytes
          rw [String.length_utf8EncodeChar] at hlength
          exact absurd hlength (Nat.ne_of_gt c.utf8Size_pos)
      | cons b bytes =>
          rw [hbytes] at hc
          cases hc with
          | cons hb _ =>
              obtain ⟨high, low, rfl, -⟩ := hb
              exact List.cons_ne_nil _ _

end ChannelRelay.Percent
