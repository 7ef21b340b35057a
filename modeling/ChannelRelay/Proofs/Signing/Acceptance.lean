import ChannelRelay.Proofs.Text.Decimal
import ChannelRelay.Proofs.Text.Hex
import ChannelRelay.Proofs.Text.Utf8
import ChannelRelay.Signing.Signature

/-!
# Accepted requests

A request is accepted exactly if its first timestamp denotes a time that is at most five minutes
from the clock, and its first signature is the one of this time and the body
(`verify_exactly`).  The distance is that of the integers: saturation changes no verdict
(`skew_le_iff`).
-/

namespace ChannelRelay

/-! ## Headers -/

/-- The first field of a name, given in lower case, has a text as its value: printable ASCII and
tabs. -/
def Headers.Carries (headers : Headers) (name text : String) : Prop :=
  ∃ before field after, headers = before ++ field :: after ∧
    (∀ earlier ∈ before, asciiLower earlier.name ≠ name) ∧ asciiLower field.name = name ∧
    field.value = Utf8.encode text ∧
    ∀ b ∈ field.value, (0x20 ≤ b ∧ b ≤ 0x7E) ∨ b = 0x09

theorem isReadable_iff {b : UInt8} :
    isReadable b = true ↔ (0x20 ≤ b ∧ b ≤ 0x7E) ∨ b = 0x09 := by
  simp [isReadable]

/-- Readable bytes are the bytes of a text, character by character. -/
theorem encode_of_readable {value : List UInt8} (h : value.all isReadable = true) :
    Utf8.encode (String.ofList (value.map fun b => Char.ofNat b.toNat)) = value := by
  rw [Utf8.encode, String.toList_ofList]
  induction value with
  | nil => rfl
  | cons b rest ih =>
      rw [List.all_cons, Bool.and_eq_true] at h
      have hb : b.toNat < 0x80 := by
        rcases isReadable_iff.1 h.1 with ⟨-, hle⟩ | rfl
        · exact Nat.lt_of_le_of_lt (UInt8.le_iff_toNat_le.1 hle) (by decide)
        · decide
      rw [List.map_cons, List.flatMap_cons, Utf8.encodeChar_one hb, UInt8.ofNat_toNat, ih h.2]
      rfl

theorem Headers.first?_eq_some_iff {headers : Headers} {name : String} {value : List UInt8} :
    headers.first? name = some value ↔
      ∃ before field after, headers = before ++ field :: after ∧
        (∀ earlier ∈ before, asciiLower earlier.name ≠ name) ∧
        asciiLower field.name = name ∧ field.value = value := by
  rw [first?, Option.map_eq_some_iff]
  constructor
  · rintro ⟨field, hfind, rfl⟩
    obtain ⟨hname, before, after, hsplit, hbefore⟩ := List.find?_eq_some_iff_append.1 hfind
    exact ⟨before, field, after, hsplit, fun e he => by simpa using hbefore e he,
      by simpa using hname, rfl⟩
  · rintro ⟨before, field, after, hsplit, hbefore, hname, rfl⟩
    refine ⟨field, List.find?_eq_some_iff_append.2 ⟨by simpa using hname, before, after, hsplit,
      fun e he => by simpa using hbefore e he⟩, rfl⟩

theorem Headers.text?_eq_some_iff {headers : Headers} {name text : String} :
    headers.text? name = some text ↔ headers.Carries name text := by
  simp only [text?, Option.bind_eq_bind, Option.bind_eq_some_iff, first?_eq_some_iff]
  constructor
  · rintro ⟨value, ⟨before, field, after, hsplit, hbefore, hname, rfl⟩, htext⟩
    split at htext
    · rename_i hreadable
      obtain rfl := Option.some.inj htext
      exact ⟨before, field, after, hsplit, hbefore, hname, (encode_of_readable hreadable).symm,
        fun b hb => isReadable_iff.1 (List.all_eq_true.1 hreadable b hb)⟩
    · exact absurd htext (by simp)
  · rintro ⟨before, field, after, hsplit, hbefore, hname, hvalue, hbytes⟩
    have hreadable : field.value.all isReadable = true :=
      List.all_eq_true.2 fun b hb => isReadable_iff.2 (hbytes b hb)
    refine ⟨field.value, ⟨before, field, after, hsplit, hbefore, hname, rfl⟩, ?_⟩
    rw [if_pos hreadable]
    exact congrArg some (Utf8.encode_inj ((encode_of_readable hreadable).trans hvalue))

/-- The text that a name carries. -/
theorem Headers.Carries.unique {headers : Headers} {name text other : String}
    (h : headers.Carries name text) (hother : headers.Carries name other) : text = other := by
  have hfirst := text?_eq_some_iff.2 h
  rw [text?_eq_some_iff.2 hother] at hfirst
  exact (Option.some.inj hfirst).symm

namespace Signature

/-! ## Times -/

theorem minValue_toInt : Int64.minValue.toInt = -2 ^ 63 := by decide

theorem maxValue_toInt : Int64.maxValue.toInt = 2 ^ 63 - 1 := by decide

theorem toInt_saturated (n : Int) :
    (saturated n).toInt = max (-2 ^ 63) (min (2 ^ 63 - 1) n) := by
  rw [saturated, minValue_toInt, maxValue_toInt]
  exact Int64.toInt_ofInt_of_le (by omega) (by omega)

/-- The distance in saturating arithmetic is within the bound exactly if the distance of the
integers is. -/
theorem skew_le_iff (now timestamp : Int64) :
    skew now timestamp ≤ maxSkew ↔ (now.toInt - timestamp.toInt).natAbs ≤ 300 := by
  have hmax : maxSkew.toInt = 300 := by decide
  rw [Int64.le_iff_toInt_le, hmax, skew, toInt_saturated, toInt_saturated]
  omega

/-- A timestamp is read as a time exactly if it denotes the time. -/
theorem readTimestamp?_eq_some_iff {text : String} {timestamp : Int64} :
    readTimestamp? text = some timestamp ↔ Decimal.Denotes text.toList timestamp.toInt := by
  have hrange : ∀ n, Decimal.readInt? Int64.minValue.toInt Int64.maxValue.toInt text = some n ↔
      Decimal.Denotes text.toList n ∧ -2 ^ 63 ≤ n ∧ n ≤ 2 ^ 63 - 1 := by
    intro n
    rw [← minValue_toInt, ← maxValue_toInt]
    exact Decimal.readInt?_eq_some_iff (by decide) (by decide)
  rw [readTimestamp?, Option.map_eq_some_iff]
  constructor
  · rintro ⟨n, hn, rfl⟩
    obtain ⟨hdenotes, hleast, hlargest⟩ := (hrange n).1 hn
    rw [Int64.toInt_ofInt_of_le hleast (by omega)]
    exact hdenotes
  · intro h
    have hlt := timestamp.toInt_lt
    exact ⟨timestamp.toInt, (hrange _).2 ⟨h, timestamp.le_toInt, by omega⟩, Int64.ofInt_toInt _⟩

/-- The first timestamp of a request denotes a time. -/
def Dates (headers : Headers) (timestamp : Int64) : Prop :=
  ∃ text, headers.Carries timestampHeader text ∧ Decimal.Denotes text.toList timestamp.toInt

theorem Dates.unique {headers : Headers} {timestamp other : Int64} (h : Dates headers timestamp)
    (hother : Dates headers other) : timestamp = other := by
  obtain ⟨text, htext, hdenotes⟩ := h
  obtain ⟨text', htext', hdenotes'⟩ := hother
  obtain rfl := htext.unique htext'
  exact Int64.toInt_inj.1 (hdenotes.unique hdenotes')

/-- A timestamp in decimal denotes its time. -/
theorem dates_of_decimal {headers : Headers} {timestamp : Int64}
    (h : headers.Carries timestampHeader (toString timestamp.toInt)) : Dates headers timestamp :=
  ⟨_, h, Decimal.denotes_toString _⟩

/-! ## Signed requests -/

/-- The header fields of a request with the signature of its body at a time. -/
def signed (secret : String) (timestamp : Int64) (body : List UInt8) : Headers :=
  [⟨signatureHeader, Utf8.encode (sign secret timestamp body)⟩,
    ⟨timestampHeader, Utf8.encode (toString timestamp.toInt)⟩]

/-- The bytes of a text in printable ASCII are readable. -/
theorem readable_of_printable {text : String} (h : ∀ c ∈ text.toList, ' ' ≤ c ∧ c ≤ '~') :
    ∀ b ∈ Utf8.encode text, (0x20 ≤ b ∧ b ≤ 0x7E) ∨ b = 0x09 := by
  intro b hb
  obtain ⟨c, hc, hbyte⟩ := List.mem_flatMap.1 hb
  have hle : c.toNat ≤ 0x7E := (h c hc).2
  have hge : 0x20 ≤ c.toNat := (h c hc).1
  rw [Utf8.encodeChar_ascii (by omega), List.mem_singleton] at hbyte
  rw [hbyte, UInt8.le_iff_toNat_le, UInt8.le_iff_toNat_le, Utf8.toNat_ofNat (by omega)]
  exact Or.inl ⟨hge, hle⟩

theorem printable_sign {secret : String} {timestamp : Int64} {body : List UInt8} :
    ∀ c ∈ (sign secret timestamp body).toList, ' ' ≤ c ∧ c ≤ '~' := by
  intro c hc
  rw [sign, String.toList_append, List.mem_append] at hc
  rcases hc with hc | hc
  · have hversion : (version ++ "=").toList = ['v', '0', '='] := by decide
    simp only [hversion, List.mem_cons, List.not_mem_nil, or_false] at hc
    rcases hc with rfl | rfl | rfl <;> decide
  · rcases Hex.mem_text hc with ⟨hlow, hhigh⟩ | ⟨hlow, hhigh⟩
    · exact ⟨Char.le_trans (by decide) hlow, Char.le_trans hhigh (by decide)⟩
    · exact ⟨Char.le_trans (by decide) hlow, Char.le_trans hhigh (by decide)⟩

theorem printable_toString {n : Int} : ∀ c ∈ (toString n).toList, ' ' ≤ c ∧ c ≤ '~' := by
  intro c hc
  rcases (Decimal.denotes_toString n).mem hc with rfl | rfl | ⟨hlow, hhigh⟩
  · decide
  · decide
  · exact ⟨Char.le_trans (by decide) hlow, Char.le_trans hhigh (by decide)⟩

/-- The first field of a name carries the text in printable ASCII that is written as its value. -/
theorem carries_of_printable {headers : Headers} {title name text : String}
    (before after : Headers)
    (hsplit : headers = before ++ ⟨title, Utf8.encode text⟩ :: after)
    (hbefore : ∀ earlier ∈ before, asciiLower earlier.name ≠ name)
    (hname : asciiLower title = name) (h : ∀ c ∈ text.toList, ' ' ≤ c ∧ c ≤ '~') :
    headers.Carries name text :=
  ⟨before, _, after, hsplit, hbefore, hname, rfl, readable_of_printable h⟩

/-- A signed request carries its signature and its time, whatever fields follow. -/
theorem carries_signed (secret : String) (timestamp : Int64) (body : List UInt8)
    (rest : Headers) :
    (signed secret timestamp body ++ rest).Carries signatureHeader (sign secret timestamp body) ∧
      (signed secret timestamp body ++ rest).Carries timestampHeader
        (toString timestamp.toInt) := by
  have hsignature : asciiLower signatureHeader = signatureHeader := by decide +kernel
  have htimestamp : asciiLower timestampHeader = timestampHeader := by decide +kernel
  have hother : asciiLower signatureHeader ≠ timestampHeader := by decide +kernel
  constructor
  · exact carries_of_printable [] _ rfl (by simp) hsignature printable_sign
  · refine carries_of_printable [_] rest rfl ?_ htimestamp printable_toString
    intro earlier hearlier
    rw [List.mem_singleton.1 hearlier]
    exact hother

/-! ## Verdicts -/

theorem verify_eq_true_iff {secret : String} {headers : Headers} {body : List UInt8}
    {now : Int64} :
    verify secret headers body now = true ↔
      ∃ timestamp, Dates headers timestamp ∧ (now.toInt - timestamp.toInt).natAbs ≤ 300 ∧
        headers.Carries signatureHeader (sign secret timestamp body) := by
  unfold verify
  constructor
  · intro h
    split at h
    · rename_i given text hgiven htext
      split at h
      · exact absurd h (by simp)
      · rename_i timestamp hread
        rw [Bool.and_eq_true, decide_eq_true_iff, beq_iff_eq] at h
        obtain ⟨hskew, rfl⟩ := h
        exact ⟨timestamp, ⟨text, Headers.text?_eq_some_iff.1 htext,
          readTimestamp?_eq_some_iff.1 hread⟩, (skew_le_iff now timestamp).1 hskew,
          Headers.text?_eq_some_iff.1 hgiven⟩
    · exact absurd h (by simp)
  · rintro ⟨timestamp, ⟨text, htext, hdenotes⟩, hskew, hgiven⟩
    simp only [Headers.text?_eq_some_iff.2 htext, Headers.text?_eq_some_iff.2 hgiven,
      readTimestamp?_eq_some_iff.2 hdenotes]
    simpa using (skew_le_iff now timestamp).2 hskew

/-- A request is accepted exactly if its first timestamp denotes a time in 64 bits, this time is
at most 300 seconds from the clock, and its first signature is that of the time and the body.  So
a request with the signature of a time and with that time in decimal is accepted exactly if the
time is near; for every secret, time and body there is such a request. -/
theorem verify_exactly (secret : String) (body : List UInt8) :
    (∀ headers now, verify secret headers body now = true ↔
      ∃ timestamp, Dates headers timestamp ∧ (now.toInt - timestamp.toInt).natAbs ≤ 300 ∧
        headers.Carries signatureHeader (sign secret timestamp body)) ∧
    (∀ headers timestamp now, headers.Carries signatureHeader (sign secret timestamp body) →
      headers.Carries timestampHeader (toString timestamp.toInt) →
      (verify secret headers body now = true ↔
        (now.toInt - timestamp.toInt).natAbs ≤ 300)) ∧
    ∀ timestamp rest,
      (signed secret timestamp body ++ rest).Carries signatureHeader
          (sign secret timestamp body) ∧
        (signed secret timestamp body ++ rest).Carries timestampHeader
          (toString timestamp.toInt) := by
  refine ⟨fun _ _ => verify_eq_true_iff, ?_, fun timestamp => carries_signed secret timestamp body⟩
  intro headers timestamp now hsigned hdecimal
  rw [verify_eq_true_iff]
  constructor
  · rintro ⟨other, hdates, hnear, -⟩
    rw [(dates_of_decimal hdecimal).unique hdates]
    exact hnear
  · intro hnear
    exact ⟨timestamp, dates_of_decimal hdecimal, hnear, hsigned⟩

/-- A request of the first moment is accepted for five minutes and refused at the last moment. -/
theorem verify_first_moment :
    let headers := signed "key" Int64.minValue [0x61] ++ []
    verify "key" headers [0x61] (Int64.minValue + 300) = true ∧
      verify "key" headers [0x61] Int64.maxValue = false := by
  intro headers
  obtain ⟨hsigned, hdecimal⟩ := carries_signed "key" Int64.minValue [0x61] []
  have hexactly := (verify_exactly "key" [0x61]).2.1 headers Int64.minValue
  refine ⟨(hexactly _ hsigned hdecimal).2 (by decide), ?_⟩
  rw [Bool.eq_false_iff, Ne, hexactly _ hsigned hdecimal]
  decide

end Signature

end ChannelRelay
