import ChannelRelay.Proofs.Text.Form
import ChannelRelay.Proofs.Text.Spelling

/-!
# Fields in their standard form

A list of fields, whatever their keys and values are, is written without ampersands and equals
signs but those between the fields and their sides.  So it is read back as the same list
(`parse_serialize`).
-/

namespace ChannelRelay

theorem Hex.value?_upperDigit {n : Nat} (h : n < 16) : value? (upperDigit n) = some n := by
  interval_cases n <;> decide

/-- An escape is decoded as its byte. -/
theorem Percent.decode_escape (b : UInt8) (rest : List UInt8) :
    decode (escape b ++ rest) = b :: decode rest := by
  have hb := b.toNat_lt
  have hbyte : UInt8.ofNat (b.toNat / 16 * 16 + b.toNat % 16) = b := Utf8.ofNat_eq (by omega)
  have hhigh := value?_eq_some_iff.1 (Hex.value?_upperDigit (n := b.toNat / 16) (by omega))
  have hlow := value?_eq_some_iff.1 (Hex.value?_upperDigit (n := b.toNat % 16) (by omega))
  have hstands := StandsFor.escape hhigh hlow (decode_eq_iff.1 (rfl : decode rest = decode rest))
  rw [hbyte] at hstands
  exact decode_eq_iff.2 hstands

namespace Form

variable {b c : UInt8} {text : String}

theorem isPlain_upperDigit {n : Nat} (h : n < 16) : isPlain (Hex.upperDigit n) = true := by
  interval_cases n <;> decide

/-- An escape is a percent sign and bytes that are written as themselves. -/
theorem mem_escape (h : c ∈ Percent.escape b) : c = 0x25 ∨ isPlain c = true := by
  have hb := b.toNat_lt
  simp only [Percent.escape, List.mem_cons, List.not_mem_nil, or_false] at h
  rcases h with rfl | rfl | rfl
  · exact Or.inl rfl
  · exact Or.inr (isPlain_upperDigit (by omega))
  · exact Or.inr (isPlain_upperDigit (by omega))

theorem mem_encodeByte (h : c ∈ encodeByte b) : c = 0x2B ∨ c = 0x25 ∨ isPlain c = true := by
  unfold encodeByte at h
  split at h
  · exact Or.inl (List.mem_singleton.1 h)
  · split at h
    · rename_i hplain
      rw [List.mem_singleton.1 h]
      exact Or.inr (Or.inr hplain)
    · exact Or.inr (mem_escape h)

/-- No separator stands in a side of a field. -/
theorem separator_not_mem (hc : c = 0x26 ∨ c = 0x3D) : c ∉ encodePart text := by
  intro hmem
  obtain ⟨b, -, hb⟩ := List.mem_flatMap.1 hmem
  have hwritten := mem_encodeByte hb
  rcases hc with rfl | rfl
  · exact absurd hwritten (by decide)
  · exact absurd hwritten (by decide)

/-- With blanks in place of the plus signs, what a byte is written with is decoded as the byte. -/
theorem decode_encodeByte (b : UInt8) (rest : List UInt8) :
    Percent.decode ((encodeByte b).map (fun b => if b = 0x2B then 0x20 else b) ++ rest) =
      b :: Percent.decode rest := by
  unfold encodeByte
  by_cases hblank : b = 0x20
  · subst hblank
    exact Percent.decode_cons (by decide)
  · rw [if_neg hblank]
    by_cases hplain : isPlain b = true
    · have hplus : b ≠ 0x2B := by
        rintro rfl
        exact absurd hplain (by decide)
      have hsign : b ≠ 0x25 := by
        rintro rfl
        exact absurd hplain (by decide)
      rw [if_pos hplain, List.map_singleton, if_neg hplus]
      exact Percent.decode_cons hsign
    · have hsame : (Percent.escape b).map (fun b => if b = 0x2B then 0x20 else b) =
          Percent.escape b := by
        refine (List.map_congr_left fun d hd => ?_).trans (List.map_id _)
        refine if_neg ?_
        rintro rfl
        exact absurd (mem_escape hd) (by decide)
      rw [if_neg hplain, hsame, Percent.decode_escape]

theorem decodePart_encodePart (text : String) : decodePart (encodePart text) = text := by
  have hdecode : ∀ bytes : List UInt8,
      Percent.decode ((bytes.flatMap encodeByte).map fun b => if b = 0x2B then 0x20 else b) =
        bytes := by
    intro bytes
    induction bytes with
    | nil => exact Percent.decode_nil
    | cons b rest ih => rw [List.flatMap_cons, List.map_append, decode_encodeByte, ih]
  rw [decodePart, encodePart, hdecode, Utf8.decodeLossy_encode]

theorem parseField_serializeField (field : Field) : parseField (serializeField field) = field := by
  have hkey : 0x3D ∉ encodePart field.1 := separator_not_mem (Or.inr rfl)
  rw [parseField, serializeField, Cut.takeWhile_append hkey (Or.inr ⟨_, rfl⟩),
    Cut.dropWhile_append hkey (Or.inr ⟨_, rfl⟩), decodePart_encodePart]
  show (field.1, decodePart (encodePart field.2)) = field
  rw [decodePart_encodePart]

/-- The standard form of a list of fields is read back as the list. -/
theorem parse_serialize (fields : List Field) : parse (serialize fields) = fields := by
  have hfree : ∀ piece ∈ fields.map serializeField, 0x26 ∉ piece := by
    intro piece hpiece
    obtain ⟨field, -, rfl⟩ := List.mem_map.1 hpiece
    rw [serializeField, List.mem_append, List.mem_cons]
    rintro (h | h | h)
    · exact separator_not_mem (Or.inl rfl) h
    · exact absurd h (by decide)
    · exact separator_not_mem (Or.inl rfl) h
  have hfull : (fields.map serializeField).filter (!·.isEmpty) = fields.map serializeField := by
    refine List.filter_eq_self.2 fun piece hpiece => ?_
    obtain ⟨field, -, rfl⟩ := List.mem_map.1 hpiece
    simp [serializeField]
  rw [parse, serialize]
  cases fields with
  | nil => rfl
  | cons field rest =>
      rw [List.splitOn_intercalate _ hfree (by simp), hfull, List.map_map]
      refine (List.map_congr_left fun f _ => ?_).trans (List.map_id _)
      exact parseField_serializeField f

example : serialize [("a b", "1&\u00E9"), ("", "")] = Utf8.encode "a+b=1%26%C3%A9&=" := by
  decide

end Form

end ChannelRelay
