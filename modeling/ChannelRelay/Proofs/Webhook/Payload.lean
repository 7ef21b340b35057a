import ChannelRelay.Proofs.Text.Form
import ChannelRelay.Webhook.Payload

/-!
# Payloads under any media type

A body that is a JSON object is its own payload under every media type but that of forms.  Under
that one a field of the name `payload` is looked for first, in the JSON text too: what a string of
the object says after an ampersand can be taken for the field.  `read_any_type_iff` says exactly
when the payload stays the same.
-/

namespace ChannelRelay

namespace Json

/-- No document begins with a letter p or with a percent sign. -/
theorem ofChars?_cons_eq_none {c : Char} {rest : List Char} (h : c = 'p' ∨ c = '%') :
    Document.ofChars? (c :: rest) = none := by
  have hgap : isGap c = false := by
    rcases h with rfl | rfl
    · rfl
    · rfl
  have htoken : Token.next? (c :: rest) = none := by
    rcases h with rfl | rfl
    · simp [Token.next?, numeral?, wholePart?, digits?, Decimal.isDigit]
    · simp [Token.next?, numeral?, wholePart?, digits?, Decimal.isDigit]
  have hdrop : (c :: rest).dropWhile isGap = c :: rest :=
    List.dropWhile_cons_of_neg (by simp [hgap])
  rw [Document.ofChars?, Reader.run]
  split
  · rename_i hnil
    exact absurd (hdrop.symm.trans hnil) (by simp)
  · rename_i d later hcons
    obtain ⟨rfl, rfl⟩ := List.cons.inj (hdrop.symm.trans hcons)
    split
    · rfl
    · rename_i t after hnext
      exact absurd (htoken.symm.trans hnext) (by simp)

end Json

namespace Payload

/-- A field of the name is written behind an ampersand of a body: a percent-encoding of the name,
and then an equals sign, another ampersand or the end. -/
def HoldsField (body : List UInt8) : Prop :=
  ∃ front name after, body = front ++ 0x26 :: (name ++ after) ∧
    Percent.decode name = Utf8.encode field ∧
    (after = [] ∨ ∃ rest, after = 0x3D :: rest ∨ after = 0x26 :: rest)

variable {headers bare : Headers} {body : List UInt8} {members : Json.Members}

theorem found_eq_ok_iff {record : Option Json.Members} :
    found record = .ok members ↔ record = some members := by
  cases record with
  | none => simp [found]
  | some _ => simp [found]

/-- The name of the field is one word. -/
theorem isWord_field : Form.IsWord field :=
  ⟨by decide, by simp [Form.reserved, field], by simp [field]⟩

/-- A percent-encoding of the name of the field begins with its first letter or an escape. -/
theorem head_of_decode {name : List UInt8} (h : Percent.decode name = Utf8.encode field) :
    ∃ b rest, name = b :: rest ∧ (b = 0x70 ∨ b = 0x25) := by
  have hfield : Utf8.encode field = [0x70, 0x61, 0x79, 0x6C, 0x6F, 0x61, 0x64] := by
    decide +kernel
  rw [hfield] at h
  cases name with
  | nil => exact absurd (Percent.decode_nil.symm.trans h) (by simp)
  | cons b rest =>
      refine ⟨b, rest, rfl, ?_⟩
      by_cases hsign : b = 0x25
      · exact Or.inr hsign
      · rw [Percent.decode_cons hsign] at h
        exact Or.inl (List.cons.inj h).1

/-- A JSON object does not begin like the field. -/
theorem head_of_record {b : UInt8} {rest : List UInt8}
    (h : Json.recordOfBytes? (b :: rest) = some members) : ¬ (b = 0x70 ∨ b = 0x25) := by
  intro hb
  rw [Json.recordOfBytes?, Option.bind_eq_bind, Option.bind_eq_some_iff] at h
  obtain ⟨text, htext, hrecord⟩ := h
  have hsmall : b.toNat < 0x80 := by
    rcases hb with rfl | rfl
    · decide
    · decide
  obtain ⟨c, back, hchars, hc, -⟩ :=
    Utf8.cons_of_ascii hsmall (Utf8.decode?_eq_some_iff.1 htext).symm
  have hfirst : c = 'p' ∨ c = '%' := by
    rcases hb with rfl | rfl
    · exact Or.inl (Char.ext (UInt32.toNat_inj.1 hc))
    · exact Or.inr (Char.ext (UInt32.toNat_inj.1 hc))
  rw [Json.recordOfText?, hchars, Json.ofChars?_cons_eq_none hfirst] at hrecord
  exact absurd hrecord (by simp)

/-- A JSON object has a value for the field exactly if it holds the field. -/
theorem valuesOf_ne_nil_iff (h : Json.recordOfBytes? body = some members) :
    Form.valuesOf field (Form.parse body) ≠ [] ↔ HoldsField body := by
  rw [Form.valuesOf_parse_ne_nil_iff isWord_field]
  constructor
  · rintro ⟨before, name, after, rfl, hname, rfl | ⟨front, rfl⟩, hafter⟩
    · -- The field would be the first thing in the body.
      obtain ⟨b, rest, rfl, hb⟩ := head_of_decode hname
      exact absurd hb (head_of_record h)
    · exact ⟨front, name, after, by simp, hname, hafter⟩
  · rintro ⟨front, name, after, rfl, hname, hafter⟩
    exact ⟨front ++ [0x26], name, after, by simp, hname, Or.inr ⟨front, rfl⟩, hafter⟩

theorem read_of_not_form (h : isForm headers = false) :
    read headers body = found (Json.recordOfBytes? body) := by
  rw [read, h]
  rfl

/-- A body without a media type is read as JSON. -/
theorem read_bare (h : bare.first? contentType = none) (body : List UInt8) :
    read bare body = found (Json.recordOfBytes? body) := by
  have htype : bare.text? contentType = none := by rw [Headers.text?, h]; rfl
  exact read_of_not_form (by rw [isForm, htype])

/-- It is a payload exactly if it is a JSON object. -/
theorem read_bare_iff (h : bare.first? contentType = none) :
    read bare body = .ok members ↔ Json.recordOfBytes? body = some members := by
  rw [read_bare h, found_eq_ok_iff]

/-- A form is read by its values of the field. -/
theorem read_form_iff (h : isForm headers = true) :
    read headers body = .ok members ↔
      (Form.valuesOf field (Form.parse body) = [] ∧ Json.recordOfBytes? body = some members) ∨
        ∃ value, Form.valuesOf field (Form.parse body) = [value] ∧
          Json.recordOfText? value = some members := by
  rw [read, if_pos h]
  cases hvalues : Form.valuesOf field (Form.parse body) with
  | nil => simp [found_eq_ok_iff]
  | cons value more =>
      cases more with
      | nil => simp [found_eq_ok_iff]
      | cons _ _ => simp

/-- A body that is read as an object without a media type is read as the same object under any
headers, unless the media type is that of forms and the body holds the field.  Then it is read so
exactly if the field has one value and this is a JSON text of the same object. -/
theorem read_any_type_iff (hbare : bare.first? contentType = none)
    (hread : read bare body = .ok members) :
    read headers body = .ok members ↔
      (isForm headers = true → HoldsField body →
        ∃ value, Form.valuesOf field (Form.parse body) = [value] ∧
          Json.recordOfText? value = some members) := by
  have hrecord : Json.recordOfBytes? body = some members := (read_bare_iff hbare).1 hread
  by_cases hform : isForm headers = true
  · rw [read_form_iff hform]
    constructor
    · rintro (⟨hnone, -⟩ | hvalue) - hholds
      · exact absurd hnone ((valuesOf_ne_nil_iff hrecord).2 hholds)
      · exact hvalue
    · intro h
      by_cases hholds : HoldsField body
      · exact Or.inr (h hform hholds)
      · have hnone : Form.valuesOf field (Form.parse body) = [] :=
          not_not.1 fun hne => hholds ((valuesOf_ne_nil_iff hrecord).1 hne)
        exact Or.inl ⟨hnone, hrecord⟩
  · have hsame : read headers body = .ok members := by
      rw [read_of_not_form (Bool.eq_false_iff.2 hform), found_eq_ok_iff]
      exact hrecord
    exact ⟨fun _ hyes => absurd hyes hform, fun _ => hsame⟩

/-- The headers of a form, with the media type in mixed case and a parameter. -/
def formHeaders : Headers :=
  [⟨contentType, Utf8.encode "Application/X-WWW-Form-Urlencoded; charset=utf-8"⟩]

/-- A JSON body in which a string reads like two fields of a form, of other names. -/
theorem read_ampersand :
    let body := Utf8.encode "\x7b\"text\":\"a&b=1%2B1\"\x7d"
    isForm formHeaders = true ∧
      ∃ members, read [] body = .ok members ∧ read formHeaders body = .ok members := by
  intro body
  have hform : isForm formHeaders = true := by decide +kernel
  have hsome : (Json.recordOfBytes? body).isSome := by decide +kernel
  obtain ⟨members, hrecord⟩ := Option.isSome_iff_exists.1 hsome
  have hread : read [] body = .ok members := (read_bare_iff rfl).2 hrecord
  have hnone : Form.valuesOf field (Form.parse body) = [] := by decide +kernel
  have hfree : ¬ HoldsField body := fun h => (valuesOf_ne_nil_iff hrecord).2 h hnone
  exact ⟨hform, members, hread, (read_any_type_iff rfl hread).2 fun _ h => absurd h hfree⟩

/-- Not every JSON body is its own payload under any media type: with two values of the field in
one of its strings it is refused. -/
theorem not_any_type :
    ¬ ∀ (bare headers : Headers) (body : List UInt8) (members : Json.Members),
      bare.first? contentType = none → read bare body = .ok members →
        read headers body = .ok members := by
  intro h
  let body := Utf8.encode "\x7b\"text\":\"a&payload=1&payload=2\"\x7d"
  have hform : isForm formHeaders = true := by decide +kernel
  have hsome : (Json.recordOfBytes? body).isSome := by decide +kernel
  obtain ⟨members, hrecord⟩ := Option.isSome_iff_exists.1 hsome
  have hvalues : (Form.valuesOf field (Form.parse body)).length = 2 := by decide +kernel
  rcases (read_form_iff hform).1 (h [] formHeaders body members rfl
    ((read_bare_iff rfl).2 hrecord)) with ⟨hnone, -⟩ | ⟨value, hone, -⟩
  · rw [hnone] at hvalues
    exact absurd hvalues (by decide)
  · rw [hone] at hvalues
    exact absurd hvalues (by simp)

end Payload

end ChannelRelay
