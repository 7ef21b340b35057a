import ChannelRelay.Proofs.Text.Utf8
import ChannelRelay.Text.Percent

/-!
# Escapes

Decoding changes a text exactly if an escape stands in it, that is a percent sign that two
hexadecimal digits follow (`decode_encode_eq_iff`).  A percent sign without them stands for itself.
-/

namespace ChannelRelay.Percent

/-- An escape stands somewhere in a byte string. -/
def HasEscape (bytes : List UInt8) : Prop :=
  ∃ high low, [0x25, high, low] <:+: bytes ∧ (Hex.value? high).isSome ∧ (Hex.value? low).isSome

/-- A hexadecimal digit in either case. -/
def IsHexDigit (c : Char) : Prop :=
  ('0' ≤ c ∧ c ≤ '9') ∨ ('A' ≤ c ∧ c ≤ 'F') ∨ ('a' ≤ c ∧ c ≤ 'f')

/-- No escape stands in a text. -/
def EscapeFree (text : String) : Prop :=
  ∀ high low, ['%', high, low] <:+: text.toList → ¬ (IsHexDigit high ∧ IsHexDigit low)

/-! ## Bytes -/

/-- Decoding makes no byte string longer. -/
theorem length_decodeFrom_le (done bytes : List UInt8) :
    (decodeFrom done bytes).length ≤ done.length + bytes.length := by
  fun_induction decodeFrom done bytes with
  | case1 => simp
  | case2 _ _ _ _ _ _ _ _ ih =>
      simp only [List.length_cons] at ih ⊢
      omega
  | case3 _ _ _ _ _ ih =>
      simp only [List.length_cons] at ih ⊢
      omega
  | case4 _ _ _ ih =>
      simp only [List.length_cons] at ih ⊢
      omega
  | case5 _ _ _ _ ih =>
      simp only [List.length_cons] at ih ⊢
      omega

/-- Where no escape begins, the escapes are those of the rest. -/
theorem hasEscape_cons_iff {b : UInt8} {rest : List UInt8}
    (hstart : ∀ high low, [0x25, high, low] <+: b :: rest →
      ¬ ((Hex.value? high).isSome ∧ (Hex.value? low).isSome)) :
    HasEscape (b :: rest) ↔ HasEscape rest := by
  constructor
  · rintro ⟨high, low, hinfix, hdigits⟩
    rcases List.infix_cons_iff.1 hinfix with hprefix | hinfix
    · exact absurd hdigits (hstart high low hprefix)
    · exact ⟨high, low, hinfix, hdigits⟩
  · rintro ⟨high, low, hinfix, hdigits⟩
    exact ⟨high, low, List.infix_cons hinfix, hdigits⟩

/-- What decoding does to a byte string, by whether an escape stands in it: nothing, or it makes
it shorter. -/
def Decodes (done bytes result : List UInt8) : Prop :=
  (¬ HasEscape bytes ∧ result = done.reverse ++ bytes) ∨
    (HasEscape bytes ∧ result.length < done.length + bytes.length)

/-- A byte that begins no escape stays. -/
theorem Decodes.cons {done rest result : List UInt8} {b : UInt8}
    (hstart : ∀ high low, [0x25, high, low] <+: b :: rest →
      ¬ ((Hex.value? high).isSome ∧ (Hex.value? low).isSome))
    (h : Decodes (b :: done) rest result) : Decodes done (b :: rest) result := by
  rcases h with ⟨hfree, rfl⟩ | ⟨hescape, hlength⟩
  · left
    refine ⟨fun h => hfree ((hasEscape_cons_iff hstart).1 h), ?_⟩
    rw [List.reverse_cons, List.append_assoc, List.singleton_append]
  · right
    refine ⟨(hasEscape_cons_iff hstart).2 hescape, ?_⟩
    simp only [List.length_cons] at hlength ⊢
    omega

theorem decodes_decodeFrom (done bytes : List UInt8) :
    Decodes done bytes (decodeFrom done bytes) := by
  fun_induction decodeFrom done bytes with
  | case1 done => exact Or.inl ⟨by simp [HasEscape], by simp⟩
  | case2 done high low later h l hlow hhigh ih =>
      -- An escape: one byte stands for three, and nothing after it makes up for that.
      right
      refine ⟨⟨high, low, ⟨[], later, rfl⟩, by simp [hhigh], by simp [hlow]⟩, ?_⟩
      have hle := length_decodeFrom_le (UInt8.ofNat (h * 16 + l) :: done) later
      simp only [List.length_cons] at hle ⊢
      omega
  | case3 done high low later hnone ih =>
      -- A percent sign whose next two bytes are not both digits.
      refine ih.cons ?_
      rintro high' low' ⟨tail, htail⟩ ⟨hhigh, hlow⟩
      obtain ⟨rfl, rfl, -⟩ : high' = high ∧ low' = low ∧ tail = later := by simpa using htail
      obtain ⟨h, hh⟩ := Option.isSome_iff_exists.1 hhigh
      obtain ⟨l, hl⟩ := Option.isSome_iff_exists.1 hlow
      exact hnone h l hh hl
  | case4 done short hshort ih =>
      refine ih.cons ?_
      rintro high low ⟨tail, htail⟩ -
      exact hshort high low tail (List.cons.inj htail).2.symm
  | case5 done b rest hb ih =>
      refine ih.cons ?_
      rintro high low ⟨tail, htail⟩ -
      exact hb (List.cons.inj htail).1.symm

theorem decode_eq_self_iff {bytes : List UInt8} : decode bytes = bytes ↔ ¬ HasEscape bytes := by
  rcases decodes_decodeFrom [] bytes with ⟨hfree, hsame⟩ | ⟨hescape, hshorter⟩
  · exact ⟨fun _ => hfree, fun _ => hsame⟩
  · constructor
    · intro hsame
      rw [show decodeFrom [] bytes = bytes from hsame] at hshorter
      exact absurd hshorter (by simp)
    · intro hfree
      exact absurd hescape hfree

theorem decode_nil : decode [] = [] := by
  rw [decode, decodeFrom, List.reverse_nil]

/-- What was decoded before stays in front. -/
theorem decodeFrom_append (done front bytes : List UInt8) :
    decodeFrom (done ++ front) bytes = front.reverse ++ decodeFrom done bytes := by
  fun_induction decodeFrom done bytes with
  | case1 => rw [decodeFrom, List.reverse_append]
  | case2 done high low later h l hlow hhigh ih =>
      rw [decodeFrom.eq_def]
      simp only [if_true, hhigh, hlow]
      exact ih
  | case3 done high low later hnone ih =>
      rw [decodeFrom.eq_def]
      simp only [if_true]
      exact ih
  | case4 done short hshort ih =>
      rw [decodeFrom.eq_def]
      simp only [if_true]
      exact ih
  | case5 done b rest hb ih =>
      rw [decodeFrom.eq_def]
      simp only [if_neg hb]
      exact ih

/-- A byte that is no percent sign stays where it is. -/
theorem decode_cons {b : UInt8} {rest : List UInt8} (h : b ≠ 0x25) :
    decode (b :: rest) = b :: decode rest := by
  rw [decode, decodeFrom.eq_def]
  simp only [if_neg h]
  exact decodeFrom_append [] [b] rest

/-- A byte that can belong to no escape is kept. -/
theorem mem_decode {b : UInt8} {bytes : List UInt8} (h : b ∈ bytes) (hsign : b ≠ 0x25)
    (hdigit : Hex.value? b = none) : b ∈ decode bytes := by
  suffices hkept : ∀ done : List UInt8, b ∈ done ∨ b ∈ bytes → b ∈ decodeFrom done bytes from
    hkept [] (Or.inr h)
  intro done hmem
  clear h
  fun_induction decodeFrom done bytes with
  | case1 => simpa using hmem
  | case2 done high low later h l hlow hhigh ih =>
      refine ih ?_
      have hne : b ≠ high ∧ b ≠ low := by
        constructor
        · rintro rfl
          exact absurd (hdigit.symm.trans hhigh) (by simp)
        · rintro rfl
          exact absurd (hdigit.symm.trans hlow) (by simp)
      simp only [List.mem_cons, hsign, hne.1, hne.2, false_or] at hmem
      exact hmem.imp_left (List.mem_cons_of_mem _)
  | case3 done high low later hnone ih =>
      refine ih ?_
      simpa [hsign] using hmem
  | case4 done short hshort ih =>
      refine ih ?_
      simpa [hsign] using hmem
  | case5 done c rest hc ih =>
      refine ih ?_
      rcases hmem with hmem | hmem
      · exact Or.inl (List.mem_cons_of_mem _ hmem)
      · rcases List.mem_cons.1 hmem with rfl | hmem
        · exact Or.inl List.mem_cons_self
        · exact Or.inr hmem

/-! ## Texts -/

/-- The byte of a digit has a value, and no other byte below 128 has. -/
theorem isSome_value?_iff {c : Char} {b : UInt8} (h : c.toNat = b.toNat) :
    (Hex.value? b).isSome ↔ IsHexDigit c := by
  unfold Hex.value? IsHexDigit
  simp only [UInt8.le_iff_toNat_le, UInt8.reduceToNat, Char.le_def, UInt32.le_iff_toNat_le]
  change _ ↔ (48 ≤ c.toNat ∧ c.toNat ≤ 57) ∨ (65 ≤ c.toNat ∧ c.toNat ≤ 70) ∨
    (97 ≤ c.toNat ∧ c.toNat ≤ 102)
  rw [h]
  split
  · simp_all
  · split
    · simp_all
    · split
      · simp_all
      · simp_all

theorem lt_of_isSome_value? {b : UInt8} (h : (Hex.value? b).isSome) : b.toNat < 0x80 := by
  unfold Hex.value? at h
  simp only [UInt8.le_iff_toNat_le, UInt8.reduceToNat] at h
  by_contra hlarge
  rw [if_neg (by omega), if_neg (by omega), if_neg (by omega)] at h
  exact absurd h (by simp)

theorem IsHexDigit.lt {c : Char} (h : IsHexDigit c) : c.toNat < 0x80 := by
  rcases h with ⟨-, h⟩ | ⟨-, h⟩ | ⟨-, h⟩
  · exact Nat.lt_of_le_of_lt h (by decide)
  · exact Nat.lt_of_le_of_lt h (by decide)
  · exact Nat.lt_of_le_of_lt h (by decide)

/-- The escapes in an encoding are those in its text. -/
theorem hasEscape_encode_iff {text : String} :
    HasEscape (Utf8.encode text) ↔ ¬ EscapeFree text := by
  unfold EscapeFree
  push Not
  constructor
  · rintro ⟨high, low, ⟨before, after, h⟩, hhigh, hlow⟩
    -- All three bytes are below 128, so they are three characters of the text.
    rw [List.append_assoc] at h
    obtain ⟨front, sign, back, htext, -, hsign, hback⟩ :=
      Utf8.split_at_ascii (b := 0x25) (by decide) h.symm
    obtain ⟨c, back, rfl, hc, hback⟩ := Utf8.cons_of_ascii (lt_of_isSome_value? hhigh) hback.symm
    obtain ⟨d, back, rfl, hd, -⟩ := Utf8.cons_of_ascii (lt_of_isSome_value? hlow) hback.symm
    obtain rfl : sign = '%' := Char.ext (UInt32.toNat_inj.1 hsign)
    refine ⟨c, d, ⟨front, back, ?_⟩, (isSome_value?_iff hc).1 hhigh, (isSome_value?_iff hd).1 hlow⟩
    rw [htext]
    simp
  · rintro ⟨high, low, ⟨front, back, h⟩, hhigh, hlow⟩
    refine ⟨UInt8.ofNat high.toNat, UInt8.ofNat low.toNat,
      ⟨front.flatMap String.utf8EncodeChar, back.flatMap String.utf8EncodeChar, ?_⟩, ?_, ?_⟩
    · rw [Utf8.encode, ← h]
      simp only [List.flatMap_append, List.flatMap_cons, List.flatMap_nil,
        Utf8.encodeChar_ascii hhigh.lt, Utf8.encodeChar_ascii hlow.lt]
      rfl
    · refine (isSome_value?_iff ?_).2 hhigh
      rw [Utf8.toNat_ofNat (Nat.lt_trans hhigh.lt (by decide))]
    · refine (isSome_value?_iff ?_).2 hlow
      rw [Utf8.toNat_ofNat (Nat.lt_trans hlow.lt (by decide))]

/-- Decoding leaves a text as it is exactly if no escape stands in it. -/
theorem decode_encode_eq_iff {text : String} :
    decode (Utf8.encode text) = Utf8.encode text ↔ EscapeFree text := by
  rw [decode_eq_self_iff, hasEscape_encode_iff, not_not]

end ChannelRelay.Percent
