import ChannelRelay.Text.Utf8
import Mathlib.Tactic.IntervalCases

/-!
# Decoding is the inverse of encoding

A byte string decodes to a text exactly if it is the encoding of that text
(`decode?_eq_some_iff`), so overlong forms, surrogates and characters that break off have no
text.

`Spells` says which bytes the reader takes for one character; `spells_iff` says that these are the
bytes that the character is written as.  All that comes after it is about lists.
-/

namespace ChannelRelay.Utf8

/-! ## One character -/

/-- The bytes that complete an opened character, and the character. -/
inductive Completes : Opened → List UInt8 → Char → Prop where
  | last {bits : Nat} {low high b : UInt8} (hlow : low ≤ b) (hhigh : b ≤ high) :
      Completes ⟨bits, 0, low, high⟩ [b] (Char.ofNat (bits * 64 + (b.toNat - 0x80)))
  | more {bits further : Nat} {low high b : UInt8} {tail : List UInt8} {c : Char}
      (hlow : low ≤ b) (hhigh : b ≤ high)
      (htail : Completes ⟨bits * 64 + (b.toNat - 0x80), further, 0x80, 0xBF⟩ tail c) :
      Completes ⟨bits, further + 1, low, high⟩ (b :: tail) c

/-- The bytes of a character. -/
inductive Spells : List UInt8 → Char → Prop where
  | single {b : UInt8} {c : Char} (hlead : lead b = .single c) : Spells [b] c
  | opened {b : UInt8} {o : Opened} {tail : List UInt8} {c : Char} (hlead : lead b = .opens o)
      (htail : Completes o tail c) : Spells (b :: tail) c

theorem toNat_ofNat {n : Nat} (h : n < 256) : (UInt8.ofNat n).toNat = n := by
  rw [UInt8.toNat_ofNat']
  exact Nat.mod_eq_of_lt h

theorem ofNat_eq {b : UInt8} {n : Nat} (h : b.toNat = n) : UInt8.ofNat n = b := by
  rw [← h]
  exact UInt8.ofNat_toNat

theorem lead_two {n : Nat} (hlow : 2 ≤ n) (hhigh : n < 32) :
    lead (UInt8.ofNat (n + 0xC0)) = .opens ⟨n, 0, 0x80, 0xBF⟩ := by
  interval_cases n <;> rfl

theorem lead_three {n : Nat} (h : n < 16) :
    lead (UInt8.ofNat (n + 0xE0)) =
      .opens ⟨n, 1, if n = 0 then 0xA0 else 0x80, if n = 13 then 0x9F else 0xBF⟩ := by
  interval_cases n <;> rfl

theorem lead_four {n : Nat} (h : n < 5) :
    lead (UInt8.ofNat (n + 0xF0)) =
      .opens ⟨n, 2, if n = 0 then 0x90 else 0x80, if n = 4 then 0x8F else 0xBF⟩ := by
  interval_cases n <;> rfl

/-- A byte that opens a character is one of two, of three or of four. -/
theorem lead_cases {b : UInt8} {o : Opened} (h : lead b = .opens o) :
    (∃ n, 2 ≤ n ∧ n < 32 ∧ b = UInt8.ofNat (n + 0xC0)) ∨
      (∃ n, n < 16 ∧ b = UInt8.ofNat (n + 0xE0)) ∨ ∃ n, n < 5 ∧ b = UInt8.ofNat (n + 0xF0) := by
  unfold lead at h
  simp only [UInt8.lt_iff_toNat_lt, ← UInt8.toNat_inj, UInt8.reduceToNat] at h
  have hshape : (0xC2 ≤ b.toNat ∧ b.toNat < 0xE0) ∨ (0xE0 ≤ b.toNat ∧ b.toNat < 0xF0) ∨
      (0xF0 ≤ b.toNat ∧ b.toNat < 0xF5) := by
    by_contra hout
    rw [if_neg (show ¬ b.toNat = 0xE0 by omega), if_neg (show ¬ b.toNat = 0xED by omega),
      if_neg (show ¬ b.toNat = 0xF0 by omega), if_neg (show ¬ b.toNat = 0xF4 by omega)] at h
    split at h
    · simp at h
    · split at h
      · simp at h
      · rw [if_neg (by omega), if_neg (by omega), if_neg (by omega)] at h
        simp at h
  rcases hshape with ⟨hlow, hhigh⟩ | ⟨hlow, hhigh⟩ | ⟨hlow, hhigh⟩
  · exact Or.inl ⟨b.toNat - 0xC0, by omega, by omega, (ofNat_eq (by omega)).symm⟩
  · exact Or.inr (Or.inl ⟨b.toNat - 0xE0, by omega, (ofNat_eq (by omega)).symm⟩)
  · exact Or.inr (Or.inr ⟨b.toNat - 0xF0, by omega, (ofNat_eq (by omega)).symm⟩)

theorem lead_ascii {n : Nat} (h : n < 0x80) : lead (UInt8.ofNat n) = .single (Char.ofNat n) := by
  have hlt : UInt8.ofNat n < 0x80 := by
    rw [UInt8.lt_iff_toNat_lt, toNat_ofNat (by omega)]
    exact h
  rw [lead, if_pos hlt, toNat_ofNat (by omega)]

/-- A further byte of a character, by the six bits that it adds. -/
theorem exists_six_bits {low high b : UInt8} (hlow : low ≤ b) (hhigh : b ≤ high)
    (hmin : 0x80 ≤ low.toNat) (hmax : high.toNat ≤ 0xBF) :
    ∃ t, t < 64 ∧ b = UInt8.ofNat (t + 0x80) ∧ b.toNat - 0x80 = t ∧
      low.toNat ≤ t + 0x80 ∧ t + 0x80 ≤ high.toNat := by
  rw [UInt8.le_iff_toNat_le] at hlow hhigh
  exact ⟨b.toNat - 0x80, by omega, (ofNat_eq (by omega)).symm, rfl, by omega, by omega⟩

theorem six_bits {t : Nat} (h : t < 64) :
    (UInt8.ofNat (t + 0x80)).toNat - 0x80 = t := by
  rw [toNat_ofNat (by omega)]
  omega

theorem le_ofNat {low : UInt8} {n : Nat} (hn : n < 256) (h : low.toNat ≤ n) :
    low ≤ UInt8.ofNat n := by
  rw [UInt8.le_iff_toNat_le, toNat_ofNat hn]
  exact h

theorem ofNat_le {high : UInt8} {n : Nat} (hn : n < 256) (h : n ≤ high.toNat) :
    UInt8.ofNat n ≤ high := by
  rw [UInt8.le_iff_toNat_le, toNat_ofNat hn]
  exact h

theorem val_ofNat {v : Nat} (h : v.isValidChar) : (Char.ofNat v).val.toNat = v := by
  rw [Char.ofNat, dif_pos h]
  rfl

section Lengths

variable {n t u w : Nat}

theorem encodeChar_one (h : n < 0x80) :
    String.utf8EncodeChar (Char.ofNat n) = [UInt8.ofNat n] := by
  have hv := val_ofNat (v := n) (Or.inl (by omega))
  simp only [String.utf8EncodeChar, hv]
  rw [if_pos (by omega)]

theorem encodeChar_two (hlow : 2 ≤ n) (hhigh : n < 32) (ht : t < 64) :
    String.utf8EncodeChar (Char.ofNat (n * 64 + t)) =
      [UInt8.ofNat (n + 0xC0), UInt8.ofNat (t + 0x80)] := by
  have hv := val_ofNat (v := n * 64 + t) (Or.inl (by omega))
  simp only [String.utf8EncodeChar, hv]
  rw [if_neg (by omega), if_pos (by omega),
    show (n * 64 + t) / 64 % 32 = n by omega, show (n * 64 + t) % 64 = t by omega]

theorem encodeChar_three (hn : n < 16) (ht : t < 64) (hu : u < 64) (hleast : n = 0 → 32 ≤ t)
    (hvalid : n = 13 → t < 32) :
    String.utf8EncodeChar (Char.ofNat ((n * 64 + t) * 64 + u)) =
      [UInt8.ofNat (n + 0xE0), UInt8.ofNat (t + 0x80), UInt8.ofNat (u + 0x80)] := by
  have hv := val_ofNat (v := (n * 64 + t) * 64 + u) (by unfold Nat.isValidChar; omega)
  simp only [String.utf8EncodeChar, hv]
  rw [if_neg (by omega), if_neg (by omega), if_pos (by omega),
    show ((n * 64 + t) * 64 + u) / 4096 % 16 = n by omega,
    show ((n * 64 + t) * 64 + u) / 64 % 64 = t by omega,
    show ((n * 64 + t) * 64 + u) % 64 = u by omega]

theorem encodeChar_four (hn : n < 5) (ht : t < 64) (hu : u < 64) (hw : w < 64)
    (hleast : n = 0 → 16 ≤ t) (hvalid : n = 4 → t < 16) :
    String.utf8EncodeChar (Char.ofNat (((n * 64 + t) * 64 + u) * 64 + w)) =
      [UInt8.ofNat (n + 0xF0), UInt8.ofNat (t + 0x80), UInt8.ofNat (u + 0x80),
        UInt8.ofNat (w + 0x80)] := by
  have hv := val_ofNat (v := ((n * 64 + t) * 64 + u) * 64 + w) (by unfold Nat.isValidChar; omega)
  simp only [String.utf8EncodeChar, hv]
  rw [if_neg (by omega), if_neg (by omega), if_neg (by omega),
    show (((n * 64 + t) * 64 + u) * 64 + w) / 262144 % 8 = n by omega,
    show (((n * 64 + t) * 64 + u) * 64 + w) / 4096 % 64 = t by omega,
    show (((n * 64 + t) * 64 + u) * 64 + w) / 64 % 64 = u by omega,
    show (((n * 64 + t) * 64 + u) * 64 + w) % 64 = w by omega]

end Lengths

theorem lead_single {b : UInt8} {c : Char} (h : lead b = .single c) :
    b.toNat < 0x80 ∧ c = Char.ofNat b.toNat := by
  unfold lead at h
  split at h
  · rename_i hlt
    exact ⟨hlt, (Lead.single.inj h).symm⟩
  · repeat' split at h
    all_goals exact absurd h (by simp)

/-- What is read as a character is what the character is written as. -/
theorem eq_encodeChar_of_spells {bytes : List UInt8} {c : Char} (h : Spells bytes c) :
    bytes = String.utf8EncodeChar c := by
  cases h with
  | single hlead =>
      obtain ⟨hlt, rfl⟩ := lead_single hlead
      rw [encodeChar_one hlt, UInt8.ofNat_toNat]
  | opened hlead htail =>
      rcases lead_cases hlead with ⟨n, hlow, hhigh, rfl⟩ | ⟨n, hn, rfl⟩ | ⟨n, hn, rfl⟩
      · rw [lead_two hlow hhigh] at hlead
        obtain rfl := Lead.opens.inj hlead
        cases htail with
        | last hmin hmax =>
            obtain ⟨t, ht, rfl, hbits, -, -⟩ := exists_six_bits hmin hmax (by decide) (by decide)
            rw [hbits, encodeChar_two hlow hhigh ht]
      · rw [lead_three hn] at hlead
        obtain rfl := Lead.opens.inj hlead
        cases htail with
        | more hmin hmax htail =>
            obtain ⟨t, ht, rfl, hbits, hleast, hmost⟩ :=
              exists_six_bits hmin hmax (by split <;> decide) (by split <;> decide)
            rw [hbits] at htail
            cases htail with
            | last hmin hmax =>
                obtain ⟨u, hu, rfl, hbits, -, -⟩ :=
                  exists_six_bits hmin hmax (by decide) (by decide)
                rw [hbits, encodeChar_three hn ht hu]
                · rintro rfl
                  change 0xA0 ≤ t + 0x80 at hleast
                  omega
                · rintro rfl
                  change t + 0x80 ≤ 0x9F at hmost
                  omega
      · rw [lead_four hn] at hlead
        obtain rfl := Lead.opens.inj hlead
        cases htail with
        | more hmin hmax htail =>
            obtain ⟨t, ht, rfl, hbits, hleast, hmost⟩ :=
              exists_six_bits hmin hmax (by split <;> decide) (by split <;> decide)
            rw [hbits] at htail
            cases htail with
            | more hmin hmax htail =>
                obtain ⟨u, hu, rfl, hbits, -, -⟩ :=
                  exists_six_bits hmin hmax (by decide) (by decide)
                rw [hbits] at htail
                cases htail with
                | last hmin hmax =>
                    obtain ⟨w, hw, rfl, hbits, -, -⟩ :=
                      exists_six_bits hmin hmax (by decide) (by decide)
                    rw [hbits, encodeChar_four hn ht hu hw]
                    · rintro rfl
                      change 0x90 ≤ t + 0x80 at hleast
                      omega
                    · rintro rfl
                      change t + 0x80 ≤ 0x8F at hmost
                      omega

section Completion

variable {bits t : Nat} {low high : UInt8}

theorem completes_last (ht : t < 64) (hlow : low.toNat ≤ t + 0x80)
    (hhigh : t + 0x80 ≤ high.toNat) :
    Completes ⟨bits, 0, low, high⟩ [UInt8.ofNat (t + 0x80)] (Char.ofNat (bits * 64 + t)) := by
  have h : Completes ⟨bits, 0, low, high⟩ _ _ :=
    .last (le_ofNat (by omega) hlow) (ofNat_le (by omega) hhigh)
  rw [six_bits ht] at h
  exact h

theorem completes_more {further : Nat} {tail : List UInt8} {c : Char} (ht : t < 64)
    (hlow : low.toNat ≤ t + 0x80) (hhigh : t + 0x80 ≤ high.toNat)
    (htail : Completes ⟨bits * 64 + t, further, 0x80, 0xBF⟩ tail c) :
    Completes ⟨bits, further + 1, low, high⟩ (UInt8.ofNat (t + 0x80) :: tail) c := by
  refine .more (le_ofNat (by omega) hlow) (ofNat_le (by omega) hhigh) ?_
  rw [six_bits ht]
  exact htail

end Completion

/-- Every character is read from what it is written as. -/
theorem spells_encodeChar (c : Char) : Spells (String.utf8EncodeChar c) c := by
  have hmin : ∀ t, (0x80 : UInt8).toNat ≤ t + 0x80 := fun t => Nat.le_add_left ..
  have hmax : ∀ t, t < 64 → t + 0x80 ≤ (0xBF : UInt8).toNat := by
    intro t ht
    show t + 0x80 ≤ 0xBF
    omega
  obtain ⟨v, hv, rfl⟩ : ∃ v : Nat, v.isValidChar ∧ c = Char.ofNat v :=
    ⟨c.toNat, c.valid, (Char.ofNat_toNat c).symm⟩
  unfold Nat.isValidChar at hv
  -- The lengths of a character are one to four bytes, by the size of its code point.
  by_cases hone : v < 0x80
  · rw [encodeChar_one hone]
    exact .single (lead_ascii hone)
  by_cases htwo : v < 0x800
  · obtain ⟨n, t, rfl, ht⟩ : ∃ n t, v = n * 64 + t ∧ t < 64 :=
      ⟨v / 64, v % 64, by omega, by omega⟩
    rw [encodeChar_two (by omega) (by omega) ht]
    exact .opened (lead_two (by omega) (by omega)) (completes_last ht (hmin t) (hmax t ht))
  by_cases hthree : v < 0x10000
  · obtain ⟨n, t, u, rfl, ht, hu⟩ : ∃ n t u, v = (n * 64 + t) * 64 + u ∧ t < 64 ∧ u < 64 :=
      ⟨v / 4096, v / 64 % 64, v % 64, by omega, by omega, by omega⟩
    rw [encodeChar_three (by omega) ht hu (by omega) (by omega)]
    refine .opened (lead_three (by omega)) (completes_more ht ?_ ?_
      (completes_last hu (hmin u) (hmax u hu)))
    · split
      · show 0xA0 ≤ t + 0x80
        omega
      · exact hmin t
    · split
      · show t + 0x80 ≤ 0x9F
        omega
      · exact hmax t ht
  · obtain ⟨n, t, u, w, rfl, ht, hu, hw⟩ : ∃ n t u w,
        v = ((n * 64 + t) * 64 + u) * 64 + w ∧ t < 64 ∧ u < 64 ∧ w < 64 :=
      ⟨v / 262144, v / 4096 % 64, v / 64 % 64, v % 64, by omega, by omega, by omega, by omega⟩
    rw [encodeChar_four (by omega) ht hu hw (by omega) (by omega)]
    refine .opened (lead_four (by omega)) (completes_more ht ?_ ?_
      (completes_more hu (hmin u) (hmax u hu) (completes_last hw (hmin w) (hmax w hw))))
    · split
      · show 0x90 ≤ t + 0x80
        omega
      · exact hmin t
    · split
      · show t + 0x80 ≤ 0x8F
        omega
      · exact hmax t ht

/-- A character is read from the bytes that it is written as, and from no others. -/
theorem spells_iff {bytes : List UInt8} {c : Char} :
    Spells bytes c ↔ bytes = String.utf8EncodeChar c := by
  constructor
  · exact eq_encodeChar_of_spells
  · rintro rfl
    exact spells_encodeChar c

/-! ## Texts -/

section Steps

variable {opened : Option Opened} {done : List (Option Char)} {b : UInt8} {rest : List UInt8}

theorem scanFrom_of_single {c : Char} (h : lead b = .single c) :
    scanFrom none done (b :: rest) = scanFrom none (some c :: done) rest := by
  simp only [scanFrom, h]

theorem scanFrom_of_opens {o : Opened} (h : lead b = .opens o) :
    scanFrom none done (b :: rest) = scanFrom (some o) done rest := by
  simp only [scanFrom, h]

theorem scanFrom_of_stray (h : lead b = .stray) :
    scanFrom none done (b :: rest) = scanFrom none (none :: done) rest := by
  simp only [scanFrom, h]

/-- A byte that does not continue an open character is read again as a first byte. -/
theorem scanFrom_of_broken {o : Opened} (h : ¬ (o.low ≤ b ∧ b ≤ o.high)) :
    scanFrom (some o) done (b :: rest) = scanFrom none (none :: done) (b :: rest) := by
  simp only [scanFrom, if_neg h]

theorem scanFrom_of_last {bits : Nat} {low high : UInt8} (h : low ≤ b ∧ b ≤ high) :
    scanFrom (some ⟨bits, 0, low, high⟩) done (b :: rest) =
      scanFrom none (some (Char.ofNat (bits * 64 + (b.toNat - 0x80))) :: done) rest := by
  simp only [scanFrom, if_pos h]

theorem scanFrom_of_more {bits further : Nat} {low high : UInt8} (h : low ≤ b ∧ b ≤ high) :
    scanFrom (some ⟨bits, further + 1, low, high⟩) done (b :: rest) =
      scanFrom (some ⟨bits * 64 + (b.toNat - 0x80), further, 0x80, 0xBF⟩) done rest := by
  simp only [scanFrom, if_pos h]

end Steps

/-- What was read before stays in front. -/
theorem scanFrom_eq_append (opened : Option Opened) (done : List (Option Char))
    (bytes : List UInt8) :
    scanFrom opened done bytes = done.reverse ++ scanFrom opened [] bytes := by
  induction bytes generalizing opened done with
  | nil => cases opened <;> simp [scanFrom]
  | cons b rest ih =>
      -- A first byte comes up twice: with no character open, and after one that breaks off.
      have hfirst : ∀ done, scanFrom none done (b :: rest) =
          done.reverse ++ scanFrom none [] (b :: rest) := by
        intro done
        cases hlead : lead b with
        | single c =>
            rw [scanFrom_of_single hlead, scanFrom_of_single hlead, ih, ih none [some c],
              List.reverse_cons, List.append_assoc]
            rfl
        | opens o => rw [scanFrom_of_opens hlead, scanFrom_of_opens hlead, ih]
        | stray =>
            rw [scanFrom_of_stray hlead, scanFrom_of_stray hlead, ih, ih none [none],
              List.reverse_cons, List.append_assoc]
            rfl
      cases opened with
      | none => exact hfirst done
      | some o =>
          by_cases hb : o.low ≤ b ∧ b ≤ o.high
          · obtain ⟨bits, further, low, high⟩ := o
            cases further with
            | zero =>
                rw [scanFrom_of_last hb, scanFrom_of_last hb, ih, ih none [some _],
                  List.reverse_cons, List.append_assoc]
                rfl
            | succ further => rw [scanFrom_of_more hb, scanFrom_of_more hb, ih]
          · rw [scanFrom_of_broken hb, scanFrom_of_broken hb, hfirst, hfirst [none],
              List.reverse_cons, List.append_assoc]
            rfl

/-- Reading comes to nothing only if there is nothing to read. -/
theorem eq_nil_of_scanFrom {opened : Option Opened} {bytes : List UInt8}
    (h : scanFrom opened [] bytes = []) : opened = none ∧ bytes = [] := by
  have hlonger : ∀ (opened : Option Opened) (done : List (Option Char)) (bytes : List UInt8),
      scanFrom opened done bytes = [] → done = [] := by
    intro opened done bytes h
    rw [scanFrom_eq_append] at h
    simpa using (List.append_eq_nil_iff.1 h).1
  induction bytes generalizing opened with
  | nil => cases opened <;> simp_all [scanFrom]
  | cons b rest ih =>
      exfalso
      have hfirst : scanFrom none [] (b :: rest) ≠ [] := by
        intro h
        cases hlead : lead b with
        | single c => exact absurd (hlonger _ _ _ (scanFrom_of_single hlead ▸ h)) (by simp)
        | opens o => exact absurd (ih (scanFrom_of_opens hlead ▸ h)).1 (by simp)
        | stray => exact absurd (hlonger _ _ _ (scanFrom_of_stray hlead ▸ h)) (by simp)
      cases opened with
      | none => exact hfirst h
      | some o =>
          by_cases hb : o.low ≤ b ∧ b ≤ o.high
          · obtain ⟨bits, further, low, high⟩ := o
            cases further with
            | zero => exact absurd (hlonger _ _ _ (scanFrom_of_last hb ▸ h)) (by simp)
            | succ further => exact absurd (ih (scanFrom_of_more hb ▸ h)).1 (by simp)
          · exact absurd (hlonger _ _ _ (scanFrom_of_broken hb ▸ h)) (by simp)

theorem scanFrom_of_completes {o : Opened} {tail : List UInt8} {c : Char}
    (h : Completes o tail c) (rest : List UInt8) :
    scanFrom (some o) [] (tail ++ rest) = some c :: scan rest := by
  induction h with
  | last hlow hhigh =>
      rw [List.singleton_append, scanFrom_of_last ⟨hlow, hhigh⟩, scanFrom_eq_append]
      rfl
  | more hlow hhigh _ ih => rw [List.cons_append, scanFrom_of_more ⟨hlow, hhigh⟩, ih]

/-- The bytes of a character are read as that character. -/
theorem scan_of_spells {bytes : List UInt8} {c : Char} (h : Spells bytes c)
    (rest : List UInt8) : scan (bytes ++ rest) = some c :: scan rest := by
  cases h with
  | single hlead =>
      rw [scan, List.singleton_append, scanFrom_of_single hlead, scanFrom_eq_append]
      rfl
  | opened hlead htail =>
      rw [scan, List.cons_append, scanFrom_of_opens hlead, scanFrom_of_completes htail]

/-- If an open character is read, the bytes that complete it are there. -/
theorem exists_completes {o : Opened} {bytes : List UInt8} {c : Char}
    {read : List (Option Char)} (h : scanFrom (some o) [] bytes = some c :: read) :
    ∃ tail rest, bytes = tail ++ rest ∧ Completes o tail c ∧ read = scan rest := by
  induction bytes generalizing o with
  | nil => exact absurd h (by simp [scanFrom])
  | cons b rest ih =>
      by_cases hb : o.low ≤ b ∧ b ≤ o.high
      · obtain ⟨bits, further, low, high⟩ := o
        cases further with
        | zero =>
            rw [scanFrom_of_last hb, scanFrom_eq_append] at h
            obtain ⟨hc, hread⟩ := List.cons.inj h
            obtain rfl := Option.some.inj hc
            exact ⟨[b], rest, rfl, .last hb.1 hb.2, hread.symm⟩
        | succ further =>
            rw [scanFrom_of_more hb] at h
            obtain ⟨tail, rest', rfl, htail, hread⟩ := ih h
            exact ⟨b :: tail, rest', rfl, .more hb.1 hb.2 htail, hread⟩
      · rw [scanFrom_of_broken hb, scanFrom_eq_append] at h
        exact absurd (List.cons.inj h).1 (by simp)

/-- If a character is read, its bytes come first. -/
theorem exists_spells {bytes : List UInt8} {c : Char} {read : List (Option Char)}
    (h : scan bytes = some c :: read) :
    ∃ first rest, bytes = first ++ rest ∧ Spells first c ∧ read = scan rest := by
  cases bytes with
  | nil => exact absurd h (by simp [scan, scanFrom])
  | cons b rest =>
      rw [scan] at h
      cases hlead : lead b with
      | single d =>
          rw [scanFrom_of_single hlead, scanFrom_eq_append] at h
          obtain ⟨hc, hread⟩ := List.cons.inj h
          obtain rfl := Option.some.inj hc
          exact ⟨[b], rest, rfl, .single hlead, hread.symm⟩
      | opens o =>
          rw [scanFrom_of_opens hlead] at h
          obtain ⟨tail, rest', rfl, htail, hread⟩ := exists_completes h
          exact ⟨b :: tail, rest', rfl, .opened hlead htail, hread⟩
      | stray =>
          rw [scanFrom_of_stray hlead, scanFrom_eq_append] at h
          exact absurd (List.cons.inj h).1 (by simp)

/-- Bytes are read as some characters, without a fault, exactly if they are what the characters
are written as. -/
theorem scan_eq_map_some_iff {bytes : List UInt8} {cs : List Char} :
    scan bytes = cs.map some ↔ bytes = cs.flatMap String.utf8EncodeChar := by
  induction cs generalizing bytes with
  | nil =>
      constructor
      · intro h
        exact (eq_nil_of_scanFrom h).2
      · rintro rfl
        rfl
  | cons c cs ih =>
      rw [List.map_cons, List.flatMap_cons]
      constructor
      · intro h
        obtain ⟨first, rest, rfl, hspells, hrest⟩ := exists_spells h
        rw [spells_iff.1 hspells, ih.1 hrest.symm]
      · rintro rfl
        rw [scan_of_spells (spells_encodeChar c), ih.2 rfl]

theorem map_some_filterMap {read : List (Option Char)} (h : read.all Option.isSome = true) :
    (read.filterMap id).map some = read := by
  induction read with
  | nil => rfl
  | cons item read ih =>
      cases item with
      | none => exact absurd h (by simp)
      | some c =>
          rw [List.all_cons, Bool.and_eq_true] at h
          exact congrArg (some c :: ·) (ih h.2)

/-- A byte string decodes to a text exactly if it is the encoding of the text. -/
theorem decode?_eq_some_iff {bytes : List UInt8} {text : String} :
    decode? bytes = some text ↔ bytes = encode text := by
  have hread : scan bytes = text.toList.map some ↔ bytes = encode text := scan_eq_map_some_iff
  rw [← hread, show decode? bytes = if (scan bytes).all Option.isSome
    then some (String.ofList ((scan bytes).filterMap id)) else none from rfl]
  constructor
  · intro h
    split at h
    · rename_i hall
      rw [← Option.some.inj h, String.toList_ofList, map_some_filterMap hall]
    · exact absurd h (by simp)
  · intro h
    rw [h, if_pos (by simp)]
    simp

/-! ## Bytes below 128 -/

/-- A byte below 128 is a character of its own. -/
theorem encodeChar_of_ascii {c : Char} {b : UInt8} (hmem : b ∈ String.utf8EncodeChar c)
    (hb : b.toNat < 0x80) : String.utf8EncodeChar c = [b] ∧ c.toNat = b.toNat := by
  have hlarge : ∀ {n : Nat}, 0x80 ≤ n → n < 256 → b ≠ UInt8.ofNat n := by
    rintro n hmin hmax rfl
    rw [toNat_ofNat hmax] at hb
    omega
  unfold String.utf8EncodeChar at hmem ⊢
  dsimp only at hmem ⊢
  split at hmem
  · rename_i hone
    rw [if_pos hone]
    obtain rfl := List.mem_singleton.1 hmem
    have hsmall : c.toNat ≤ 127 := hone
    exact ⟨rfl, (toNat_ofNat (by omega)).symm⟩
  · split at hmem
    · simp only [List.mem_cons, List.not_mem_nil, or_false] at hmem
      rcases hmem with h | h
      · exact absurd h (hlarge (by omega) (by omega))
      · exact absurd h (hlarge (by omega) (by omega))
    · split at hmem
      · simp only [List.mem_cons, List.not_mem_nil, or_false] at hmem
        rcases hmem with h | h | h
        · exact absurd h (hlarge (by omega) (by omega))
        · exact absurd h (hlarge (by omega) (by omega))
        · exact absurd h (hlarge (by omega) (by omega))
      · simp only [List.mem_cons, List.not_mem_nil, or_false] at hmem
        rcases hmem with h | h | h | h
        · exact absurd h (hlarge (by omega) (by omega))
        · exact absurd h (hlarge (by omega) (by omega))
        · exact absurd h (hlarge (by omega) (by omega))
        · exact absurd h (hlarge (by omega) (by omega))

/-- Where a byte below 128 stands in an encoding, its character stands in the text. -/
theorem split_at_ascii {cs : List Char} {before after : List UInt8} {b : UInt8}
    (hb : b.toNat < 0x80) (h : cs.flatMap String.utf8EncodeChar = before ++ b :: after) :
    ∃ front c back, cs = front ++ c :: back ∧ before = front.flatMap String.utf8EncodeChar ∧
      c.toNat = b.toNat ∧ after = back.flatMap String.utf8EncodeChar := by
  induction cs generalizing before with
  | nil => exact absurd h.symm (by simp)
  | cons c cs ih =>
      rw [List.flatMap_cons] at h
      rcases List.append_eq_append_iff.1 h with ⟨more, rfl, hrest⟩ | ⟨more, hfirst, hrest⟩
      · obtain ⟨front, d, back, rfl, rfl, hd, rfl⟩ := ih hrest
        exact ⟨c :: front, d, back, rfl, rfl, hd, rfl⟩
      · cases more with
        | nil =>
            rw [List.append_nil] at hfirst
            have hrest' : cs.flatMap String.utf8EncodeChar = [] ++ b :: after := hrest.symm
            obtain ⟨front, d, back, rfl, hnil, hd, rfl⟩ := ih hrest'
            refine ⟨c :: front, d, back, rfl, ?_, hd, rfl⟩
            rw [List.flatMap_cons, ← hnil, List.append_nil, hfirst]
        | cons b' more =>
            obtain ⟨rfl, rfl⟩ := List.cons.inj hrest
            -- The byte belongs to `c`, so it is all of `c`.
            obtain ⟨hsingle, hc⟩ := encodeChar_of_ascii (c := c) (by rw [hfirst]; simp) hb
            rw [hsingle] at hfirst
            obtain rfl : before = [] := by
              cases before with
              | nil => rfl
              | cons => simp at hfirst
            obtain rfl : more = [] := by simpa using hfirst
            exact ⟨[], c, cs, rfl, rfl, hc, rfl⟩

/-- If an encoding begins with a byte below 128, the text begins with its character. -/
theorem cons_of_ascii {cs : List Char} {after : List UInt8} {b : UInt8} (hb : b.toNat < 0x80)
    (h : cs.flatMap String.utf8EncodeChar = b :: after) :
    ∃ c back, cs = c :: back ∧ c.toNat = b.toNat ∧
      after = back.flatMap String.utf8EncodeChar := by
  have h' : cs.flatMap String.utf8EncodeChar = [] ++ b :: after := h
  obtain ⟨front, c, back, rfl, hfront, hc, hback⟩ := split_at_ascii hb h'
  cases front with
  | nil => exact ⟨c, back, rfl, hc, hback⟩
  | cons d front =>
      have hlength := congrArg List.length hfront
      rw [List.flatMap_cons, List.length_append, String.length_utf8EncodeChar] at hlength
      have hpos := d.utf8Size_pos
      simp only [List.length_nil] at hlength
      omega

/-- A character below 128 is written as its own byte. -/
theorem encodeChar_ascii {c : Char} (h : c.toNat < 0x80) :
    String.utf8EncodeChar c = [UInt8.ofNat c.toNat] := by
  rw [← encodeChar_one h, Char.ofNat_toNat]

/-- Where the byte of a character below 128 stands in an encoding, the character stands in the
text. -/
theorem mem_of_mem_encode {text : String} {c : Char} (hc : c.toNat < 0x80)
    (h : UInt8.ofNat c.toNat ∈ encode text) : c ∈ text.toList := by
  have hbyte : (UInt8.ofNat c.toNat).toNat = c.toNat := toNat_ofNat (by omega)
  obtain ⟨before, after, hsplit⟩ := List.append_of_mem h
  obtain ⟨front, d, back, htext, -, hd, -⟩ := split_at_ascii (by omega) hsplit
  obtain rfl : d = c := Char.ext (UInt32.toNat_inj.1 (hd.trans hbyte))
  rw [htext]
  exact List.mem_append_right _ List.mem_cons_self

/-! ## Lossy decoding -/

/-- An encoding is decoded as its text also where ill-formed bytes would be replaced. -/
theorem decodeLossy_encode (text : String) : decodeLossy (encode text) = text := by
  have hscan : scan (encode text) = text.toList.map some := scan_eq_map_some_iff.2 rfl
  rw [decodeLossy, hscan, List.map_map]
  show String.ofList (text.toList.map id) = text
  rw [List.map_id, String.ofList_toList]

/-- A text without the replacement character comes from its encoding alone. -/
theorem decodeLossy_eq_iff {bytes : List UInt8} {text : String} (h : '\uFFFD' ∉ text.toList) :
    decodeLossy bytes = text ↔ bytes = encode text := by
  constructor
  · intro hdecode
    have hread : (scan bytes).map (·.getD '\uFFFD') = text.toList := by
      rw [← hdecode, decodeLossy, String.toList_ofList]
    refine scan_eq_map_some_iff.1 ?_
    rw [← hread, List.map_map]
    -- Nothing was replaced, so every part was read as a character.
    refine (List.map_id _).symm.trans (List.map_congr_left fun part hpart => ?_)
    cases part with
    | some c => rfl
    | none =>
        refine absurd ?_ h
        rw [← hread]
        exact List.mem_map.2 ⟨none, hpart, rfl⟩
  · rintro rfl
    exact decodeLossy_encode text

end ChannelRelay.Utf8
