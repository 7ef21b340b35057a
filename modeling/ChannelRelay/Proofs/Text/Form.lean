import ChannelRelay.Proofs.Text.Cut
import ChannelRelay.Proofs.Text.Percent
import ChannelRelay.Text.Form

/-!
# Fields of a form

A form is cut at its ampersands, and each piece at its first equals sign.  `decodePart_eq_iff`
says which byte strings are read as a word, and `valuesOf_parse_ne_nil_iff` that a word has a value
in a body exactly if it stands there where keys stand.
-/

namespace ChannelRelay.Form

/-- The characters that a form writes in another way, or that end a key. -/
def reserved : List Char := [' ', '+', '&', '=']

/-- A text that a form can have as it is, and that no ill-formed bytes are read as. -/
structure IsWord (text : String) : Prop where
  nonempty : text ≠ ""
  free : ∀ c ∈ reserved, c ∉ text.toList
  unmarked : '\uFFFD' ∉ text.toList

/-- A word stands in a body where keys stand: a percent-encoding of it, after an ampersand or at
the start, and before an equals sign, an ampersand or the end. -/
def HasKey (word : String) (body : List UInt8) : Prop :=
  ∃ before name after, body = before ++ (name ++ after) ∧
    Percent.decode name = Utf8.encode word ∧
    (before = [] ∨ ∃ front, before = front ++ [0x26]) ∧
    (after = [] ∨ ∃ rest, after = 0x3D :: rest ∨ after = 0x26 :: rest)

variable {word : String} {bytes body : List UInt8}

/-- A reserved character is one byte, and no part of an escape. -/
theorem reserved_byte : ∀ c ∈ reserved, c.toNat < 0x80 ∧ UInt8.ofNat c.toNat ≠ 0x25 ∧
    Hex.value? (UInt8.ofNat c.toNat) = none := by
  intro c hc
  simp only [reserved, List.mem_cons, List.not_mem_nil, or_false] at hc
  rcases hc with rfl | rfl | rfl | rfl <;> decide

theorem IsWord.not_mem (hword : IsWord word) {c : Char} (hc : c ∈ reserved) :
    UInt8.ofNat c.toNat ∉ Utf8.encode word := fun hmem =>
  hword.free c hc (Utf8.mem_of_mem_encode (reserved_byte c hc).1 hmem)

/-- No reserved character stands where a word is encoded. -/
theorem IsWord.not_mem_of_decode (hword : IsWord word)
    (hdecode : Percent.decode bytes = Utf8.encode word) {c : Char} (hc : c ∈ reserved) :
    UInt8.ofNat c.toNat ∉ bytes := by
  intro hmem
  obtain ⟨-, hsign, hdigit⟩ := reserved_byte c hc
  exact hword.not_mem hc (hdecode ▸ Percent.mem_decode hmem hsign hdigit)

/-- One side of a field is read as a word exactly if it is a percent-encoding of the word. -/
theorem decodePart_eq_iff (hword : IsWord word) :
    decodePart bytes = word ↔ Percent.decode bytes = Utf8.encode word := by
  -- Without a plus sign there is no blank to put in its place.
  have hsame : 0x2B ∉ bytes →
      bytes.map (fun b => if b = 0x2B then 0x20 else b) = bytes := by
    intro hnone
    refine (List.map_congr_left fun b hb => ?_).trans (List.map_id bytes)
    exact if_neg fun heq : b = 0x2B => hnone (heq ▸ hb)
  rw [decodePart, Utf8.decodeLossy_eq_iff hword.unmarked]
  constructor
  · intro h
    have hblank := hword.not_mem_of_decode h (c := ' ') (by decide)
    have hnone : 0x2B ∉ bytes := fun hmem => hblank (List.mem_map.2 ⟨0x2B, hmem, rfl⟩)
    rw [← h, hsame hnone]
  · intro h
    rw [hsame (hword.not_mem_of_decode h (c := '+') (by decide)), h]

/-- A field of the body has a word as its key exactly if the word stands there. -/
theorem exists_key_iff (hword : IsWord word) :
    (∃ piece ∈ body.splitOn 0x26, piece ≠ [] ∧ (parseField piece).1 = word) ↔
      HasKey word body := by
  simp only [parseField, decodePart_eq_iff hword]
  constructor
  · rintro ⟨piece, hpiece, -, hkey⟩
    obtain ⟨-, before, after, rfl, hbefore, hafter⟩ := Cut.mem_splitOn_iff.1 hpiece
    refine ⟨before, _, piece.dropWhile (· != 0x3D) ++ after, ?_, hkey, hbefore, ?_⟩
    · rw [← List.append_assoc (piece.takeWhile _), List.takeWhile_append_dropWhile]
    · rcases Cut.dropWhile_cases 0x3D piece with hend | ⟨rest, hend⟩
      · rw [hend, List.nil_append]
        exact hafter.imp_right fun ⟨rest, hrest⟩ => ⟨rest, Or.inr hrest⟩
      · rw [hend]
        exact Or.inr ⟨rest ++ after, Or.inl rfl⟩
  · rintro ⟨before, name, after, rfl, hkey, hbefore, hafter⟩
    have hequals : 0x3D ∉ name := hword.not_mem_of_decode hkey (c := '=') (by decide)
    have hampersand : 0x26 ∉ name := hword.not_mem_of_decode hkey (c := '&') (by decide)
    have hname : name ≠ [] := by
      rintro rfl
      exact hword.nonempty (Utf8.encode_inj (hkey.symm.trans Percent.decode_nil))
    have hends : after.takeWhile (· != 0x26) = [] ∨
        ∃ rest, after.takeWhile (· != 0x26) = 0x3D :: rest := by
      rcases hafter with rfl | ⟨rest, rfl | rfl⟩
      · exact Or.inl rfl
      · exact Or.inr ⟨_, List.takeWhile_cons_of_pos (by decide)⟩
      · exact Or.inl (List.takeWhile_cons_of_neg (by decide))
    -- The piece goes on to the next ampersand.
    refine ⟨name ++ after.takeWhile (· != 0x26), Cut.mem_splitOn_iff.2 ⟨?_, before, _, ?_, hbefore,
      Cut.dropWhile_cases 0x26 after⟩, by simp [hname], ?_⟩
    · intro hmem
      rcases List.mem_append.1 hmem with hmem | hmem
      · exact hampersand hmem
      · simpa using List.mem_takeWhile_imp hmem
    · rw [List.append_assoc, List.takeWhile_append_dropWhile]
    · rw [Cut.takeWhile_append hequals hends]
      exact hkey

/-- A word has a value in a body exactly if it stands there as a key. -/
theorem valuesOf_parse_ne_nil_iff (hword : IsWord word) :
    valuesOf word (parse body) ≠ [] ↔ HasKey word body := by
  rw [← exists_key_iff hword]
  simp only [valuesOf, parse, Ne, List.map_eq_nil_iff, List.filter_eq_nil_iff, List.mem_map,
    List.mem_filter, not_forall, Decidable.not_not]
  constructor
  · rintro ⟨_, ⟨piece, ⟨hpiece, hne⟩, rfl⟩, hkey⟩
    exact ⟨piece, hpiece, by simpa using hne, by simpa using hkey⟩
  · rintro ⟨piece, hpiece, hne, hkey⟩
    exact ⟨parseField piece, ⟨piece, ⟨hpiece, by simpa using hne⟩, rfl⟩, by simpa using hkey⟩

end ChannelRelay.Form
