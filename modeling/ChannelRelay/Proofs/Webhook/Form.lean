import ChannelRelay.Proofs.Signing.Acceptance
import ChannelRelay.Proofs.Text.Serialize
import ChannelRelay.Proofs.Webhook.Payload

/-!
# Payloads in forms

A body is taken for a form if its first content type is that of forms, however it is capitalized
and whatever blanks and parameters stand around it (`isForm_iff`).  A list of fields that is sent in
its standard form has a payload exactly if one of the fields is named `payload`: then the value of
this field is read as if it had been sent alone (`read_serialized`).
-/

namespace ChannelRelay

/-! ## Blanks -/

namespace Blank

/-- A text is what is left of it, between blanks. -/
theorem exists_trim (cs : List Char) :
    ∃ before after, cs = before ++ ((trim (String.ofList cs)).toList ++ after) ∧
      ∀ c ∈ before ++ after, isBlank c = true := by
  have hrest : ((cs.dropWhile isBlank).reverse.dropWhile isBlank).reverse ++
      ((cs.dropWhile isBlank).reverse.takeWhile isBlank).reverse = cs.dropWhile isBlank := by
    rw [← List.reverse_append, List.takeWhile_append_dropWhile, List.reverse_reverse]
  refine ⟨cs.takeWhile isBlank, ((cs.dropWhile isBlank).reverse.takeWhile isBlank).reverse, ?_, ?_⟩
  · rw [trim, String.toList_ofList, String.toList_ofList, hrest, List.takeWhile_append_dropWhile]
  · intro c hc
    rcases List.mem_append.1 hc with hc | hc
    · exact List.mem_takeWhile_imp hc
    · exact List.mem_takeWhile_imp (List.mem_reverse.1 hc)

theorem dropWhile_of_free {cs : List Char} (h : ∀ c ∈ cs, isBlank c = false) :
    cs.dropWhile isBlank = cs := by
  cases cs with
  | nil => rfl
  | cons c rest => exact List.dropWhile_cons_of_neg (by simp [h c List.mem_cons_self])

/-- Blanks around a word are left out. -/
theorem trim_of_free {before word after : List Char}
    (hblank : ∀ c ∈ before ++ after, isBlank c = true)
    (hword : ∀ c ∈ word, isBlank c = false) :
    trim (String.ofList (before ++ (word ++ after))) = String.ofList word := by
  have hbefore : ∀ c ∈ before, isBlank c = true := fun c hc =>
    hblank c (List.mem_append_left _ hc)
  have hafter : ∀ c ∈ after, isBlank c = true := fun c hc =>
    hblank c (List.mem_append_right _ hc)
  rw [trim, String.toList_ofList, List.dropWhile_append_of_pos hbefore]
  cases word with
  | nil =>
      rw [List.nil_append, List.dropWhile_eq_nil_iff.2 hafter]
      rfl
  | cons c rest =>
      have hfirst : ¬ isBlank c = true := by simp [hword c List.mem_cons_self]
      rw [List.cons_append, List.dropWhile_cons_of_neg hfirst, ← List.cons_append,
        List.reverse_append, List.dropWhile_append_of_pos (by simpa using hafter),
        dropWhile_of_free fun d hd => hword d (List.mem_reverse.1 hd), List.reverse_reverse]

end Blank

/-- A text that a header carries is printable ASCII and tabs. -/
theorem Headers.Carries.readable {headers : Headers} {name text : String}
    (h : headers.Carries name text) :
    ∀ c ∈ text.toList, (0x20 ≤ c.toNat ∧ c.toNat ≤ 0x7E) ∨ c.toNat = 0x09 := by
  have htext := text?_eq_some_iff.2 h
  rw [text?, Option.bind_eq_bind, Option.bind_eq_some_iff] at htext
  obtain ⟨value, -, htext⟩ := htext
  split at htext
  · rename_i hreadable
    obtain rfl := Option.some.inj htext
    intro c hc
    rw [String.toList_ofList] at hc
    obtain ⟨b, hb, rfl⟩ := List.mem_map.1 hc
    rw [Hex.toNat_ofNat_byte]
    rcases isReadable_iff.1 (List.all_eq_true.1 hreadable b hb) with ⟨hlow, hhigh⟩ | rfl
    · exact Or.inl ⟨UInt8.le_iff_toNat_le.1 hlow, UInt8.le_iff_toNat_le.1 hhigh⟩
    · exact Or.inr rfl
  · exact absurd htext (by simp)

namespace Payload

/-- The media type of forms, in any capitalization, with blanks around it, and perhaps with
parameters. -/
def IsFormType (mediaType : String) : Prop :=
  ∃ before name after parameters,
    mediaType.toList = (before ++ (name ++ after)) ++ parameters ∧
      (∀ c ∈ before ++ after, c = ' ' ∨ c = '\t') ∧
      asciiLower (String.ofList name) = formType ∧
      (parameters = [] ∨ ∃ rest, parameters = ';' :: rest)

/-- The media type of forms is one word in any capitalization. -/
theorem free_of_formType {name : List Char} (h : asciiLower (String.ofList name) = formType) :
    ∀ c ∈ name, Blank.isBlank c = false ∧ c ≠ ';' := by
  have hletters : (formType.toList.all fun c => !Blank.isBlank c && c != ';') = true := by
    decide +kernel
  have hformType : ∀ c ∈ formType.toList, Blank.isBlank c = false ∧ c ≠ ';' := by
    simpa only [List.all_eq_true, Bool.and_eq_true, Bool.not_eq_true', bne_iff_ne] using hletters
  intro c hc
  by_cases hupper : 'A' ≤ c ∧ c ≤ 'Z'
  · have hlow : 0x41 ≤ c.toNat := UInt32.le_iff_toNat_le.1 hupper.1
    have hhigh : c.toNat ≤ 0x5A := UInt32.le_iff_toNat_le.1 hupper.2
    refine ⟨?_, ?_⟩
    · simp only [Blank.isBlank, Bool.or_eq_false_iff, Bool.and_eq_false_iff, decide_eq_false_iff_not,
        beq_eq_false_iff_ne]
      omega
    · rintro rfl
      exact absurd hlow (by decide)
  · -- Any other character stands in the media type as it is.
    apply hformType
    rw [← h, asciiLower, String.toList_map, String.toList_ofList]
    exact List.mem_map.2 ⟨c, hc, if_neg hupper⟩

/-- What stands before the parameters is the media type of forms, up to blanks and case. -/
theorem isFormType_iff {mediaType : String}
    (hreadable : ∀ c ∈ mediaType.toList, (0x20 ≤ c.toNat ∧ c.toNat ≤ 0x7E) ∨ c.toNat = 0x09) :
    IsFormType mediaType ↔ asciiLower (Blank.trim (String.ofList
      (mediaType.toList.takeWhile (· != ';')))) = formType := by
  constructor
  · rintro ⟨before, name, after, parameters, hsplit, hblank, hname, hparameters⟩
    have hfree := free_of_formType hname
    have hpiece : ';' ∉ before ++ (name ++ after) := by
      intro hmem
      have hsides : ';' ∉ before ++ after := fun h => absurd (hblank _ h) (by decide)
      have hinside : ';' ∉ name := fun h => (hfree _ h).2 rfl
      simp only [List.mem_append, not_or] at hmem hsides
      tauto
    have hblanks : ∀ c ∈ before ++ after, Blank.isBlank c = true := by
      intro c hc
      rcases hblank c hc with rfl | rfl
      · decide
      · decide
    rw [hsplit, Cut.takeWhile_append hpiece hparameters,
      Blank.trim_of_free hblanks fun c hc => (hfree c hc).1]
    exact hname
  · intro h
    have hparts : mediaType.toList.takeWhile (· != ';') ++
        mediaType.toList.dropWhile (· != ';') = mediaType.toList :=
      List.takeWhile_append_dropWhile
    have hends := Cut.dropWhile_cases ';' mediaType.toList
    generalize mediaType.toList.takeWhile (· != ';') = piece at h hparts
    generalize mediaType.toList.dropWhile (· != ';') = parameters at hparts hends
    obtain ⟨before, after, hsplit, hblank⟩ := Blank.exists_trim piece
    generalize Blank.trim (String.ofList piece) = name at h hsplit
    subst hsplit
    refine ⟨before, name.toList, after, parameters, hparts.symm, ?_, ?_, hends⟩
    · -- A blank that is readable is a space or a tab.
      intro c hc
      have hmem : c ∈ mediaType.toList := by
        rw [← hparts]
        simp only [List.mem_append] at hc ⊢
        tauto
      have hcode : c.toNat = 0x20 ∨ c.toNat = 0x09 := by
        have hblank := hblank c hc
        have hreadable := hreadable c hmem
        simp only [Blank.isBlank, Bool.or_eq_true, Bool.and_eq_true, decide_eq_true_eq,
          beq_iff_eq] at hblank
        omega
      exact hcode.imp (fun h => Char.toNat_inj.1 h) fun h => Char.toNat_inj.1 h
    · rw [String.ofList_toList]
      exact h

variable {headers bare : Headers} {mediaType : String}

/-- A body is taken for a form exactly if its first content type is that of forms. -/
theorem isForm_iff :
    isForm headers = true ↔
      ∃ mediaType, headers.Carries contentType mediaType ∧ IsFormType mediaType := by
  unfold isForm
  cases htext : headers.text? contentType with
  | none =>
      simp only [Bool.false_eq_true, false_iff, not_exists, not_and]
      intro mediaType hcarries
      rw [Headers.text?_eq_some_iff.2 hcarries] at htext
      exact absurd htext (by simp)
  | some mediaType =>
      have hcarries := Headers.text?_eq_some_iff.1 htext
      rw [beq_iff_eq, ← isFormType_iff hcarries.readable]
      constructor
      · intro h
        exact ⟨mediaType, hcarries, h⟩
      · rintro ⟨other, hother, h⟩
        rw [hcarries.unique hother]
        exact h

/-! ## Fields in their standard form -/

/-- A text is read from its bytes. -/
theorem recordOfBytes?_encode (text : String) :
    Json.recordOfBytes? (Utf8.encode text) = Json.recordOfText? text := by
  rw [Json.recordOfBytes?, Utf8.decode?_eq_some_iff.2 rfl]
  rfl

theorem length_valuesOf (key : String) (fields : List Form.Field) :
    (Form.valuesOf key fields).length = (fields.map Prod.fst).count key := by
  rw [Form.valuesOf, List.length_map, ← List.countP_eq_length_filter, List.count_eq_countP,
    List.countP_map]
  rfl

theorem mem_valuesOf {key value : String} {fields : List Form.Field} :
    value ∈ Form.valuesOf key fields ↔ (key, value) ∈ fields := by
  simp [Form.valuesOf]

/-- A list of fields that is sent as a form: if one of them is named `payload`, its value is read
as if it had been sent alone, wherever the field stands; if several are, they are refused; and if
none is, the form is read as if it had been sent without a content type. -/
theorem read_serialized (htype : headers.Carries contentType mediaType)
    (hform : IsFormType mediaType) (hbare : bare.first? contentType = none)
    (fields : List Form.Field) :
    let form := Form.serialize fields
    let count := (fields.map Prod.fst).count field
    (∀ value, count = 1 → (field, value) ∈ fields →
        read headers form = read bare (Utf8.encode value)) ∧
      (2 ≤ count → read headers form = .error (.severalFields count)) ∧
      (count = 0 → read headers form = read bare form) := by
  intro form count
  have hisForm : isForm headers = true := isForm_iff.2 ⟨mediaType, htype, hform⟩
  have hcount : (Form.valuesOf field fields).length = count := length_valuesOf field fields
  refine ⟨fun value hone hmem => ?_, fun hseveral => ?_, fun hnone => ?_⟩
  · obtain ⟨value', hvalues⟩ := List.length_eq_one_iff.1 (hcount.trans hone)
    have hvalue := mem_valuesOf.2 hmem
    rw [hvalues, List.mem_singleton] at hvalue
    rw [read, if_pos hisForm, Form.parse_serialize, hvalues, read_bare hbare,
      recordOfBytes?_encode, hvalue]
  · rw [read, if_pos hisForm, Form.parse_serialize, ← hcount]
    rcases hvalues : Form.valuesOf field fields with - | ⟨value, - | ⟨other, more⟩⟩
    · rw [hvalues, List.length_nil] at hcount
      omega
    · rw [hvalues, List.length_singleton] at hcount
      omega
    · rfl
  · have hvalues := List.length_eq_zero_iff.1 (hcount.trans hnone)
    rw [read, if_pos hisForm, Form.parse_serialize, hvalues, read_bare hbare]

/-- Headers of a form, with the media type in mixed case between blanks, and a parameter. -/
def formHeadersSpaced : Headers :=
  [⟨"Content-Type", Utf8.encode "  Application/X-WWW-Form-Urlencoded ; charset=utf-8"⟩]

/-- A payload among other fields, with characters that a form writes in another way. -/
theorem read_serialized_among :
    let headers := formHeadersSpaced
    let value := "\x7b\"text\":\"1 + 1 = 2 & 50% \u00FC\"\x7d"
    let fields := [("a b", "1+1=2"), ("payload", value), ("", "")]
    (∃ mediaType, headers.Carries contentType mediaType ∧ IsFormType mediaType) ∧
      ∃ members, read [] (Utf8.encode value) = .ok members ∧
        read headers (Form.serialize fields) = .ok members := by
  intro headers value fields
  have hprintable : ("  Application/X-WWW-Form-Urlencoded ; charset=utf-8".toList.all
      fun c => ' ' ≤ c ∧ c ≤ '~') = true := by
    decide +kernel
  have hcarries : headers.Carries contentType
      "  Application/X-WWW-Form-Urlencoded ; charset=utf-8" :=
    Signature.carries_of_printable [] [] rfl (by simp) (by decide +kernel)
      fun c hc => by simpa using List.all_eq_true.1 hprintable c hc
  have hform : IsFormType "  Application/X-WWW-Form-Urlencoded ; charset=utf-8" :=
    ⟨[' ', ' '], "Application/X-WWW-Form-Urlencoded".toList, [' '], "; charset=utf-8".toList,
      by decide +kernel, by simp, by decide +kernel, Or.inr ⟨_, rfl⟩⟩
  have hsome : (Json.recordOfBytes? (Utf8.encode value)).isSome := by decide +kernel
  obtain ⟨members, hrecord⟩ := Option.isSome_iff_exists.1 hsome
  have hread : read [] (Utf8.encode value) = .ok members := (read_bare_iff rfl).2 hrecord
  have hbare : Headers.first? contentType [] = none := rfl
  have hsame := (read_serialized hcarries hform hbare fields).1 value (by decide)
    (by simp [fields, field])
  exact ⟨⟨_, hcarries, hform⟩, members, hread, hsame.trans hread⟩

end Payload

end ChannelRelay
