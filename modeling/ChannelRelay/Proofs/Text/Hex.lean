import ChannelRelay.Proofs.Text.Utf8
import ChannelRelay.Text.Hex

/-!
# Pairs of digits

Bytes are written in lower-case digits (`mem_text`), and different bytes are written differently
(`text_inj`).
-/

namespace ChannelRelay.Hex

theorem value?_digit {n : Nat} (h : n < 16) : value? (digit n) = some n := by
  interval_cases n <;> rfl

/-- A digit as a character has the code of its byte. -/
theorem toNat_ofNat_byte (b : UInt8) : (Char.ofNat b.toNat).toNat = b.toNat :=
  Utf8.val_ofNat (Or.inl (Nat.lt_trans b.toNat_lt (by decide)))

theorem digit_inj {m n : Nat} (hm : m < 16) (hn : n < 16)
    (h : Char.ofNat (digit m).toNat = Char.ofNat (digit n).toNat) : m = n := by
  have hcode := congrArg Char.toNat h
  rw [toNat_ofNat_byte, toNat_ofNat_byte] at hcode
  have hvalue := value?_digit hm
  rw [UInt8.toNat_inj.1 hcode, value?_digit hn] at hvalue
  exact (Option.some.inj hvalue).symm

theorem toList_text_cons (b : UInt8) (rest : List UInt8) :
    (text (b :: rest)).toList =
      Char.ofNat (digit (b.toNat / 16)).toNat :: Char.ofNat (digit (b.toNat % 16)).toNat ::
        (text rest).toList := by
  simp only [text, String.toList_ofList, List.flatMap_cons, List.cons_append, List.nil_append]

/-- Different bytes are written differently. -/
theorem text_inj {first second : List UInt8} (h : text first = text second) : first = second := by
  induction first generalizing second with
  | nil =>
      cases second with
      | nil => rfl
      | cons b rest =>
          have hlist := congrArg String.toList h
          rw [toList_text_cons] at hlist
          exact absurd hlist (by simp [text])
  | cons a first ih =>
      cases second with
      | nil =>
          have hlist := congrArg String.toList h
          rw [toList_text_cons] at hlist
          exact absurd hlist (by simp [text])
      | cons b second =>
          have hlist := congrArg String.toList h
          rw [toList_text_cons, toList_text_cons] at hlist
          obtain ⟨hhigh, hlist⟩ := List.cons.inj hlist
          obtain ⟨hlow, hrest⟩ := List.cons.inj hlist
          have ha := a.toNat_lt
          have hb := b.toNat_lt
          have hdiv := digit_inj (by omega) (by omega) hhigh
          have hmod := digit_inj (Nat.mod_lt _ (by decide)) (Nat.mod_lt _ (by decide)) hlow
          obtain rfl : a = b := UInt8.toNat_inj.1 (by omega)
          rw [ih (String.toList_inj.1 hrest)]

/-- Bytes are written in lower-case digits. -/
theorem mem_text {bytes : List UInt8} {c : Char} (h : c ∈ (text bytes).toList) :
    ('0' ≤ c ∧ c ≤ '9') ∨ ('a' ≤ c ∧ c ≤ 'f') := by
  have hdigit : ∀ n, n < 16 → c = Char.ofNat (digit n).toNat →
      ('0' ≤ c ∧ c ≤ '9') ∨ ('a' ≤ c ∧ c ≤ 'f') := by
    rintro n hn rfl
    interval_cases n <;> decide
  rw [text, String.toList_ofList] at h
  obtain ⟨b, -, hc⟩ := List.mem_flatMap.1 h
  have hb := b.toNat_lt
  rcases List.mem_cons.1 hc with hhigh | hlow
  · exact hdigit _ (by omega) hhigh
  · exact hdigit _ (Nat.mod_lt _ (by decide)) (List.mem_singleton.1 hlow)

end ChannelRelay.Hex
