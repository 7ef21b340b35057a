import ChannelRelay.Proofs.Time.Stamp

/-!
# Written instants

An instant is read from the text that it is written as exactly if its year, in UTC, has four digits
(`parse?_format`).  Of the nanoseconds nothing is lost, however many digits write them, and a leap
second remains one.  A year that has more digits, or a sign, is written but not read.
-/

namespace ChannelRelay.Instant

open Decimal (padded isDigit)

/-! ## Fractions -/

section Fractions

variable {count n nanos : Nat} {style : Fraction}

/-- The nanoseconds of digits that fill a width. -/
theorem fractionNanos_padded (hcount : 0 < count) (hcount' : count ≤ 9) (h : n < tenTo count) :
    fractionNanos (padded count n).toList = n * tenTo (9 - count) := by
  have hlength := Decimal.length_padded hcount h
  rw [fractionNanos, List.take_of_length_le (by omega), hlength, Decimal.ofDigits_padded]

/-- A fraction that is written has digits for all its nanoseconds. -/
theorem exists_digits (hstyle : style ≠ .omitted) (h : nanos < nanosPerSecond) :
    ∃ digits, (∀ c ∈ digits, isDigit c = true) ∧ fractionNanos digits = nanos ∧
      (style.text nanos).toList = fractionText digits := by
  have hpoint : ∀ count n : Nat, 0 < count → count ≤ 9 → n < tenTo count →
      n * tenTo (9 - count) = nanos →
      ∃ digits, (∀ c ∈ digits, isDigit c = true) ∧ fractionNanos digits = nanos ∧
        ("." ++ padded count n).toList = fractionText digits := by
    intro count n hcount hcount' hn hnanos
    obtain ⟨hsome, hdigits⟩ := Decimal.isRun_padded count n
    refine ⟨(padded count n).toList, fun c hc => Decimal.isDigit_iff.2 (hdigits c hc),
      (fractionNanos_padded hcount hcount' hn).trans hnanos, ?_⟩
    rw [String.toList_append, fractionText]
    · rfl
    · exact hsome
  unfold nanosPerSecond at h
  cases style with
  | omitted => exact absurd rfl hstyle
  | full => exact hpoint 9 nanos (by decide) (by decide) h (Nat.mul_one nanos)
  | grouped =>
    rw [Fraction.text]
    split_ifs with hzero hmillis hmicros
    · exact ⟨[], by simp, hzero.symm, rfl⟩
    · exact hpoint 3 (nanos / 1000000) (by decide) (by decide)
        (show _ < 1000 by omega) (show _ * 1000000 = nanos by omega)
    · exact hpoint 6 (nanos / 1000) (by decide) (by decide)
        (show _ < 1000000 by omega) (show _ * 1000 = nanos by omega)
    · exact hpoint 9 nanos (by decide) (by decide) h (Nat.mul_one nanos)

end Fractions

/-! ## Instants -/

variable {i : Instant} {style : Fraction} {zone : String}

/-- The date of an instant, in UTC. -/
def date (i : Instant) : Date := Date.ofDayNumber (i.seconds / 86400)

/-- The year of an instant, in UTC, has four digits. -/
def InYears (i : Instant) : Prop := i.date.InYears

instance (i : Instant) : Decidable i.InYears := inferInstanceAs (Decidable i.date.InYears)

/-- The instants of these years, in seconds. -/
theorem inYears_iff {i : Instant} :
    i.InYears ↔ -62167219200 ≤ i.seconds ∧ i.seconds < 253402300800 := by
  refine Date.inYears_ofDayNumber_iff.trans ?_
  omega

theorem date_spec (i : Instant) :
    i.date.isValid = true ∧ i.date.dayNumber = i.seconds / 86400 :=
  Date.ofDayNumber_spec _

theorem toList_format (i : Instant) (style : Fraction) (zone : String) :
    (i.format style zone).toList =
      dateText i.date ('T' ::
        clockText ((i.seconds % 86400).toNat / 3600) ((i.seconds % 86400).toNat / 60 % 60)
          ((i.seconds % 86400).toNat % 60 + i.nanos / nanosPerSecond)
          ((style.text (i.nanos % nanosPerSecond)).toList ++ zone.toList)) := by
  simp [format, dateText, clockText, date]

/-- The text of an instant says its date, its time of the day and its nanoseconds, all in UTC. -/
theorem exists_stamp (hstyle : style ≠ .omitted) (hzone : Zone zone.toList 0)
    (hyears : i.InYears) :
    ∃ s : Stamp, s.WrittenAs (i.format style zone) ∧ s.instant = i := by
  obtain ⟨hvalid, hnumber⟩ := i.date_spec
  obtain ⟨digits, hdigits, hfraction, htext⟩ :=
    exists_digits hstyle (Nat.mod_lt i.nanos (show 0 < nanosPerSecond by decide))
  obtain ⟨second, hsecond⟩ : ∃ second, second = (i.seconds % 86400).toNat := ⟨_, rfl⟩
  obtain ⟨leap, hleap⟩ : ∃ leap, leap = i.nanos / nanosPerSecond := ⟨_, rfl⟩
  have hday : (second : Int) = i.seconds % 86400 ∧ second < 86400 := by omega
  -- The second 60 is that of a leap second, and no other minute has one.
  have hend : leap = 0 ∨ leap = 1 ∧ second % 60 = 59 := by
    have hlt := i.nanos_lt
    have hlast := i.leap_at_end
    unfold nanosPerSecond at hleap
    by_cases h : i.nanos < 1000000000
    · exact Or.inl (by omega)
    · exact Or.inr ⟨by omega, by omega⟩
  refine ⟨⟨i.date, second / 3600, second / 60 % 60, second % 60 + leap, digits, 0, hvalid, hyears,
    by omega, by omega, by omega, hdigits⟩, ⟨'T', by simp, zone.toList, hzone, ?_⟩, ?_⟩
  · rw [toList_format, htext, ← hsecond, ← hleap]
  · refine Option.some.inj ((of?_instant _).symm.trans (of?_eq_some_iff.2 ⟨?_, ?_⟩))
    · simp only [hnumber]
      omega
    · simp only [hfraction, beq_iff_eq]
      unfold nanosPerSecond at hleap ⊢
      split_ifs <;> omega

/-- An instant is read from its text exactly if its year has four digits. -/
theorem parse?_format (hstyle : style ≠ .omitted) (hzone : Zone zone.toList 0) :
    parse? (i.format style zone) = if i.InYears then some i else none := by
  split_ifs with hyears
  · exact parse?_eq_some_iff.2 (exists_stamp hstyle hzone hyears)
  · rw [parse?, toList_format, date?_eq_none hyears]
    rfl

theorem parse?_nanosText (i : Instant) :
    parse? i.nanosText = if i.InYears then some i else none :=
  parse?_format (by simp) (.utc (Or.inl rfl))

theorem parse?_offsetText (i : Instant) :
    parse? i.offsetText = if i.InYears then some i else none :=
  parse?_format (by simp) (.ahead (Nat.zero_le _))

end ChannelRelay.Instant
