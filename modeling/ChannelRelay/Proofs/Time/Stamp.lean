import ChannelRelay.Proofs.Text.Decimal
import ChannelRelay.Proofs.Time.Date
import ChannelRelay.Time.Instant

/-!
# Times as they are written

A text is read as a time exactly if it is one: a date with a year of four digits, a time of the
day, whose second may be the leap second 60, a fraction of any number of digits and an offset
(`Instant.parse?_eq_some_iff`).  `Stamp` holds what such a text says, and `Stamp.instant` is the
instant that it denotes.

Each part of the reader takes its part of the text and leaves the rest, so each is described by
the text that it takes: `number?_eq_some_iff`, `date?_eq_some_iff` and so on.
-/

namespace ChannelRelay

namespace Instant

open Decimal (padded isDigit)

variable {cs rest : List Char}

/-! ## Numbers and marks -/

/-- A number is read from the digits that it fills a width with. -/
theorem number?_eq_some_iff {count n : Nat} (hcount : 0 < count) :
    number? count cs = some (n, rest) ↔
      n < tenTo count ∧ cs = (padded count n).toList ++ rest := by
  constructor
  · intro h
    rw [number?] at h
    split at h
    · rename_i hguard
      obtain ⟨hlength, hall⟩ := hguard
      obtain ⟨rfl, rfl⟩ := Prod.mk.inj (Option.some.inj h)
      have hdigits := List.all_eq_true.1 hall
      have hlt := Decimal.ofDigits_lt hdigits
      have hpadded := Decimal.toList_padded_ofDigits
        (List.ne_nil_of_length_pos (hlength.symm ▸ hcount)) hdigits
      rw [hlength] at hlt hpadded
      refine ⟨hlt, ?_⟩
      rw [hpadded, List.take_append_drop]
    · exact absurd h (by simp)
  · rintro ⟨h, rfl⟩
    have hlength := Decimal.length_padded hcount h
    have hdigits : (padded count n).toList.all isDigit = true := by
      rw [List.all_eq_true]
      exact fun c hc => Decimal.isDigit_iff.2 ((Decimal.isRun_padded count n).2 c hc)
    rw [number?, List.take_left' hlength, List.drop_left' hlength,
      if_pos ⟨hlength, hdigits⟩, Decimal.ofDigits_padded]

theorem two?_eq_some_iff {n : Nat} :
    number? 2 cs = some (n, rest) ↔ n < 100 ∧ cs = (padded 2 n).toList ++ rest :=
  number?_eq_some_iff (by decide)

theorem four?_eq_some_iff {n : Nat} :
    number? 4 cs = some (n, rest) ↔ n < 10000 ∧ cs = (padded 4 n).toList ++ rest :=
  number?_eq_some_iff (by decide)

theorem mark?_eq_some_iff {marks : List Char} :
    mark? marks cs = some rest ↔ ∃ c ∈ marks, cs = c :: rest := by
  cases cs with
  | nil => simp [mark?]
  | cons c tail => simp [mark?, and_comm, eq_comm]

/-! ## Dates -/

section Dates

variable {d : Date}

/-- The text of a date, with something after it. -/
def dateText (d : Date) (rest : List Char) : List Char :=
  (yearText d.year).toList ++ '-' ::
    ((padded 2 d.month).toList ++ '-' :: ((padded 2 d.day).toList ++ rest))

/-- A year of four digits is written without a sign. -/
theorem yearText_eq {year : Int} (h : 0 ≤ year ∧ year ≤ 9999) :
    yearText year = padded 4 year.toNat := if_pos h

theorem date?_eq_some_iff :
    date? cs = some (d, rest) ↔ d.isValid = true ∧ d.InYears ∧ cs = dateText d rest := by
  simp only [date?, Option.bind_eq_bind, Option.bind_eq_some_iff, Prod.exists,
    four?_eq_some_iff, two?_eq_some_iff, mark?_eq_some_iff, List.mem_singleton, exists_eq_left]
  constructor
  · rintro ⟨year, cs, ⟨hyear, rfl⟩, cs, rfl, month, cs, ⟨-, rfl⟩, cs, rfl, day, cs,
      ⟨-, rfl⟩, hdate⟩
    have hyears : 0 ≤ (year : Int) ∧ (year : Int) ≤ 9999 := by omega
    split at hdate
    · rename_i hvalid
      obtain ⟨rfl, rfl⟩ := Prod.mk.inj (Option.some.inj hdate)
      refine ⟨hvalid, hyears, ?_⟩
      rw [dateText, yearText_eq hyears, Int.toNat_natCast]
    · exact absurd hdate (by simp)
  · rintro ⟨hvalid, hyears, rfl⟩
    have hyear : d.year.toNat < 10000 := by
      have := hyears.2
      omega
    obtain ⟨hmonth, hday⟩ : d.month < 100 ∧ d.day < 100 := by
      simp only [Date.isValid, Bool.and_eq_true, decide_eq_true_eq] at hvalid
      have hlast := Date.daysIn_le d.year d.month
      omega
    rw [dateText, yearText_eq hyears]
    refine ⟨d.year.toNat, _, ⟨hyear, rfl⟩, _, rfl, d.month, _, ⟨hmonth, rfl⟩, _, rfl, d.day, _,
      ⟨hday, rfl⟩, ?_⟩
    rw [Int.toNat_of_nonneg hyears.1, if_pos hvalid]
    rfl

/-- No other year is read. -/
theorem date?_eq_none (hyear : ¬ d.InYears) : date? (dateText d rest) = none := by
  obtain ⟨c, tail, htext, hsign⟩ : ∃ c tail,
      (yearText d.year).toList = c :: tail ∧ isDigit c = false := by
    unfold Date.InYears at hyear
    rw [yearText, if_neg hyear, String.toList_append]
    split
    · exact ⟨'-', _, rfl, rfl⟩
    · exact ⟨'+', _, rfl, rfl⟩
  have hnumber : number? 4 (dateText d rest) = none := by
    simp [number?, dateText, htext, hsign]
  rw [date?, hnumber]
  rfl

end Dates

/-! ## Times of the day -/

/-- The text of a time of the day, with something after it. -/
def clockText (hour minute second : Nat) (rest : List Char) : List Char :=
  (padded 2 hour).toList ++ ':' ::
    ((padded 2 minute).toList ++ ':' :: ((padded 2 second).toList ++ rest))

theorem clock?_eq_some_iff {time : Nat × Bool} :
    clock? cs = some (time, rest) ↔
      ∃ hour minute second, hour ≤ 23 ∧ minute ≤ 59 ∧ second ≤ 60 ∧
        time = (hour * 3600 + minute * 60 + min second 59, second == 60) ∧
        cs = clockText hour minute second rest := by
  simp only [clock?, Option.bind_eq_bind, Option.bind_eq_some_iff, Prod.exists,
    two?_eq_some_iff, mark?_eq_some_iff, List.mem_singleton, exists_eq_left]
  constructor
  · rintro ⟨hour, cs, ⟨-, rfl⟩, cs, rfl, minute, cs, ⟨-, rfl⟩, cs, rfl, second, cs, ⟨-, rfl⟩,
      htime⟩
    split at htime
    · rename_i hclock
      obtain ⟨rfl, rfl⟩ := Prod.mk.inj (Option.some.inj htime)
      exact ⟨hour, minute, second, hclock.1, hclock.2.1, hclock.2.2, rfl, rfl⟩
    · exact absurd htime (by simp)
  · rintro ⟨hour, minute, second, hhour, hminute, hsecond, rfl, rfl⟩
    refine ⟨hour, _, ⟨by omega, rfl⟩, _, rfl, minute, _, ⟨by omega, rfl⟩, _, rfl, second, _,
      ⟨by omega, rfl⟩, ?_⟩
    rw [if_pos ⟨hhour, hminute, hsecond⟩]
    rfl

/-! ## Offsets -/

/-- The text of an offset of some minutes. -/
def minutesText (minutes : Nat) : List Char :=
  (padded 2 (minutes / 60)).toList ++ ':' :: (padded 2 (minutes % 60)).toList

/-- The texts of an offset, in minutes. -/
inductive Zone : List Char → Int → Prop where
  | utc {c : Char} (hc : c = 'Z' ∨ c = 'z') : Zone [c] 0
  | ahead {minutes : Nat} (h : minutes ≤ maxOffset) : Zone ('+' :: minutesText minutes) minutes
  | behind {c : Char} {minutes : Nat} (hc : c = '-' ∨ c = '\u2212') (h : minutes ≤ maxOffset) :
      Zone (c :: minutesText minutes) (-minutes)

theorem offsetMinutes?_eq_some_iff {minutes : Nat} :
    offsetMinutes? cs = some (minutes, rest) ↔
      minutes ≤ maxOffset ∧ cs = minutesText minutes ++ rest := by
  simp only [offsetMinutes?, Option.bind_eq_bind, Option.bind_eq_some_iff, Prod.exists,
    two?_eq_some_iff, mark?_eq_some_iff, List.mem_singleton, exists_eq_left]
  constructor
  · rintro ⟨hours, cs, ⟨-, rfl⟩, cs, rfl, left, cs, ⟨-, rfl⟩, hminutes⟩
    split at hminutes
    · rename_i hguard
      obtain ⟨rfl, rfl⟩ := Prod.mk.inj (Option.some.inj hminutes)
      have hhours : (hours * 60 + left) / 60 = hours := by omega
      have hleft : (hours * 60 + left) % 60 = left := by omega
      refine ⟨hguard.2, ?_⟩
      rw [minutesText, hhours, hleft, List.append_assoc, List.cons_append]
    · exact absurd hminutes (by simp)
  · rintro ⟨h, rfl⟩
    have hmost : minutes ≤ 1439 := h
    rw [minutesText, List.append_assoc, List.cons_append]
    refine ⟨minutes / 60, _, ⟨by omega, rfl⟩, _, rfl, minutes % 60, _, ⟨by omega, rfl⟩, ?_⟩
    have hminutes : minutes / 60 * 60 + minutes % 60 = minutes := by omega
    rw [hminutes, if_pos ⟨by omega, h⟩]
    rfl

theorem offset?_eq_some_iff {offset : Int} :
    offset? cs = some (offset, rest) ↔ ∃ zone, Zone zone offset ∧ cs = zone ++ rest := by
  constructor
  · intro h
    unfold offset? at h
    split at h
    · exact absurd h (by simp)
    · rename_i c tail
      split_ifs at h with hutc hplus hminus
      · obtain ⟨rfl, rfl⟩ := Prod.mk.inj (Option.some.inj h)
        exact ⟨_, .utc hutc, rfl⟩
      · obtain ⟨⟨minutes, after⟩, hminutes, hoffset⟩ := Option.map_eq_some_iff.1 h
        obtain ⟨rfl, rfl⟩ := Prod.mk.inj hoffset
        obtain ⟨hmost, rfl⟩ := offsetMinutes?_eq_some_iff.1 hminutes
        exact ⟨_, .ahead hmost, by rw [hplus]; rfl⟩
      · obtain ⟨⟨minutes, after⟩, hminutes, hoffset⟩ := Option.map_eq_some_iff.1 h
        obtain ⟨rfl, rfl⟩ := Prod.mk.inj hoffset
        obtain ⟨hmost, rfl⟩ := offsetMinutes?_eq_some_iff.1 hminutes
        exact ⟨_, .behind hminus hmost, rfl⟩
  · rintro ⟨zone, hzone, rfl⟩
    cases hzone with
    | utc hc => exact if_pos hc
    | ahead h =>
        rw [List.cons_append, offset?, if_neg (by decide), if_pos rfl,
          offsetMinutes?_eq_some_iff.2 ⟨h, rfl⟩]
        rfl
    | behind hc h =>
        rcases hc with rfl | rfl <;>
          rw [List.cons_append, offset?, if_neg (by decide), if_neg (by decide),
            if_pos (by simp), offsetMinutes?_eq_some_iff.2 ⟨h, rfl⟩] <;> rfl

/-! ## Fractions -/

/-- A text begins with no digit and no point. -/
def Ends (cs : List Char) : Prop := ∀ c tail, cs = c :: tail → isDigit c = false ∧ c ≠ '.'

/-- An offset is no part of a fraction. -/
theorem Zone.ends {zone : List Char} {offset : Int} (h : Zone zone offset) : Ends zone := by
  intro c tail hcons
  cases h with
  | utc hc =>
      obtain ⟨rfl, -⟩ := List.cons.inj hcons
      rcases hc with rfl | rfl <;> exact ⟨rfl, by decide⟩
  | ahead =>
      obtain ⟨rfl, -⟩ := List.cons.inj hcons
      exact ⟨rfl, by decide⟩
  | behind hc =>
      obtain ⟨rfl, -⟩ := List.cons.inj hcons
      rcases hc with rfl | rfl <;> exact ⟨rfl, by decide⟩

/-- The text of a fraction with some digits; without digits there is no point. -/
def fractionText : List Char → List Char
  | [] => []
  | digits => '.' :: digits

/-- The nanoseconds of a fraction: nine digits count, and missing ones are zeros. -/
def fractionNanos (digits : List Char) : Nat :=
  Decimal.ofDigits (digits.take 9) * tenTo (9 - (digits.take 9).length)

theorem fractionNanos_lt {digits : List Char} (h : ∀ c ∈ digits, isDigit c = true) :
    fractionNanos digits < nanosPerSecond := by
  have hlt := Decimal.ofDigits_lt fun c hc => h c (List.mem_of_mem_take hc (i := 9))
  have hlength : (digits.take 9).length ≤ 9 := List.length_take_le 9 digits
  calc fractionNanos digits
      < 10 ^ (digits.take 9).length * 10 ^ (9 - (digits.take 9).length) :=
        Nat.mul_lt_mul_of_pos_right hlt (Nat.pow_pos (by decide))
    _ = nanosPerSecond := by
        rw [← Nat.pow_add, Nat.add_sub_cancel' hlength]
        rfl

theorem fraction?_fractionText {digits : List Char} (hdigits : ∀ c ∈ digits, isDigit c = true)
    (hrest : Ends rest) :
    fraction? (fractionText digits ++ rest) = some (fractionNanos digits, rest) := by
  cases digits with
  | nil =>
      show fraction? rest = some (0, rest)
      unfold fraction?
      split
      · exact absurd rfl (hrest _ _ rfl).2
      · rfl
  | cons c digits =>
      have hafter : rest.takeWhile isDigit = [] ∧ rest.dropWhile isDigit = rest := by
        cases rest with
        | nil => exact ⟨rfl, rfl⟩
        | cons c tail => simp [(hrest c tail rfl).1]
      show fraction? ('.' :: (c :: digits ++ rest)) = _
      rw [fraction?, List.takeWhile_append_of_pos hdigits, List.dropWhile_append_of_pos hdigits,
        hafter.1, hafter.2, List.append_nil]
      rfl

theorem exists_of_fraction? {nanos : Nat} (h : fraction? cs = some (nanos, rest)) :
    ∃ digits, (∀ c ∈ digits, isDigit c = true) ∧ nanos = fractionNanos digits ∧
      cs = fractionText digits ++ rest := by
  unfold fraction? at h
  split at h
  · rename_i tail
    dsimp only at h
    split at h
    · exact absurd h (by simp)
    · rename_i hsome
      obtain ⟨rfl, rfl⟩ := Prod.mk.inj (Option.some.inj h)
      refine ⟨tail.takeWhile isDigit, List.all_eq_true.1 List.all_takeWhile, rfl, ?_⟩
      rw [fractionText, List.cons_append, List.takeWhile_append_dropWhile]
      intro hnil
      exact hsome (List.isEmpty_iff.2 hnil)
  · obtain ⟨rfl, rfl⟩ := Prod.mk.inj (Option.some.inj h)
    exact ⟨[], by simp, rfl, rfl⟩

end Instant

/-! ## Stamps -/

/-- What the text of a time says. -/
structure Stamp where
  date : Date
  hour : Nat
  minute : Nat
  /-- The second of the minute; 60 for a leap second. -/
  second : Nat
  /-- The digits of the fraction. -/
  digits : List Char
  /-- Minutes ahead of UTC. -/
  offset : Int
  date_isValid : date.isValid = true
  date_inYears : date.InYears
  hour_le : hour ≤ 23
  minute_le : minute ≤ 59
  second_le : second ≤ 60
  isDigit_digits : ∀ c ∈ digits, Decimal.isDigit c = true

namespace Stamp

open Instant

/-- The instant that is meant: that of the date and the time, less the offset.  A leap second
lasts on after the second before it. -/
def instant (s : Stamp) : Instant where
  seconds := s.date.dayNumber * 86400 +
    (s.hour * 3600 + s.minute * 60 + min s.second 59 : Nat) - s.offset * 60
  nanos := fractionNanos s.digits + if s.second = 60 then nanosPerSecond else 0
  nanos_lt := by
    have hlt := fractionNanos_lt s.isDigit_digits
    unfold nanosPerSecond at hlt ⊢
    split <;> omega
  leap_at_end hleap := by
    have hlt := fractionNanos_lt s.isDigit_digits
    unfold nanosPerSecond at hlt hleap
    split at hleap <;> omega

/-- The texts that say it. -/
def WrittenAs (s : Stamp) (text : String) : Prop :=
  ∃ mark ∈ ['T', 't', ' '], ∃ zone, Zone zone s.offset ∧
    text.toList = dateText s.date
      (mark :: clockText s.hour s.minute s.second (fractionText s.digits ++ zone))

end Stamp

namespace Instant

variable {i : Instant}

theorem of?_eq_some_iff {seconds : Int} {nanos : Nat} :
    of? seconds nanos = some i ↔ seconds = i.seconds ∧ nanos = i.nanos := by
  constructor
  · intro h
    unfold of? at h
    split_ifs at h
    obtain rfl := Option.some.inj h
    exact ⟨rfl, rfl⟩
  · rintro ⟨rfl, rfl⟩
    rw [of?, dif_pos i.nanos_lt, dif_pos i.leap_at_end]

theorem of?_instant (s : Stamp) :
    of? (s.date.dayNumber * 86400 +
        (s.hour * 3600 + s.minute * 60 + min s.second 59 : Nat) - s.offset * 60)
      (if (s.second == 60) = true then fractionNanos s.digits + nanosPerSecond
        else fractionNanos s.digits) = some s.instant := by
  refine of?_eq_some_iff.2 ⟨rfl, ?_⟩
  simp only [Stamp.instant, beq_iff_eq]
  split <;> rfl

/-- A text is read exactly if it is a date, a time of the day, a fraction and an offset, and it is
read as the instant that is meant. -/
theorem parse?_eq_some_iff {text : String} :
    parse? text = some i ↔ ∃ s : Stamp, s.WrittenAs text ∧ s.instant = i := by
  constructor
  · intro h
    simp only [parse?, Option.bind_eq_bind, Option.bind_eq_some_iff] at h
    obtain ⟨⟨date, cs⟩, hdate, cs, hmarked, ⟨time, cs⟩, hclock, ⟨nanos, cs⟩, hfraction,
      ⟨offset, cs⟩, hoffset, hof⟩ := h
    obtain ⟨hvalid, hyears, htext⟩ := date?_eq_some_iff.1 hdate
    obtain ⟨mark, hmark, rfl⟩ := mark?_eq_some_iff.1 hmarked
    obtain ⟨hour, minute, second, hhour, hminute, hsecond, rfl, rfl⟩ :=
      clock?_eq_some_iff.1 hclock
    obtain ⟨digits, hdigits, rfl, rfl⟩ := exists_of_fraction? hfraction
    obtain ⟨zone, hzone, rfl⟩ := offset?_eq_some_iff.1 hoffset
    split at hof
    · rename_i hend
      obtain rfl := List.isEmpty_iff.1 hend
      rw [List.append_nil] at htext
      let s : Stamp := ⟨date, hour, minute, second, digits, offset, hvalid, hyears, hhour,
        hminute, hsecond, hdigits⟩
      exact ⟨s, ⟨mark, hmark, zone, hzone, htext⟩,
        Option.some.inj ((of?_instant s).symm.trans hof)⟩
    · exact absurd hof (by simp)
  · rintro ⟨s, ⟨mark, hmark, zone, hzone, htext⟩, rfl⟩
    have hfraction := fraction?_fractionText s.isDigit_digits hzone.ends
    have hoffset := offset?_eq_some_iff.2 ⟨zone, hzone, (List.append_nil zone).symm⟩
    simp only [parse?, htext, Option.bind_eq_bind,
      date?_eq_some_iff.2 ⟨s.date_isValid, s.date_inYears, rfl⟩,
      mark?_eq_some_iff.2 ⟨mark, hmark, rfl⟩,
      clock?_eq_some_iff.2 ⟨s.hour, s.minute, s.second, s.hour_le, s.minute_le, s.second_le,
        rfl, rfl⟩,
      hfraction, hoffset, Option.bind_some]
    exact of?_instant s

end Instant

end ChannelRelay
