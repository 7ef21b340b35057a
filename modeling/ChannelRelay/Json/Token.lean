import ChannelRelay.Json.Numeral

/-!
# JSON tokens

The smallest parts of a JSON text.  `Token.next?` takes the token at the start of
a text and leaves what follows it.
-/

namespace ChannelRelay.Json

/-- A part of a JSON text. -/
inductive Token where
  | openArray
  | closeArray
  | openObject
  | closeObject
  | comma
  | colon
  | null
  | bool (b : Bool)
  | number (n : Numeral)
  /-- A string, `none` if half a surrogate pair stands alone in it. -/
  | text (s : Option String)
deriving BEq, Repr

/-- The characters between tokens. -/
def isGap (c : Char) : Bool :=
  c == ' ' || c == '\n' || c == '\t' || c == '\r'

/-- The value of a hexadecimal digit. -/
def hexDigit? (c : Char) : Option Nat :=
  if '0' ≤ c ∧ c ≤ '9' then some (c.toNat - 0x30)
  else if 'A' ≤ c ∧ c ≤ 'F' then some (c.toNat - 0x37)
  else if 'a' ≤ c ∧ c ≤ 'f' then some (c.toNat - 0x57)
  else none

/-- A UTF-16 unit written as four digits. -/
def unit? : List Char → Option (Nat × List Char)
  | a :: b :: c :: d :: rest => do
    let a ← hexDigit? a
    let b ← hexDigit? b
    let c ← hexDigit? c
    let d ← hexDigit? d
    return (((a * 16 + b) * 16 + c) * 16 + d, rest)
  | _ => none

/-- The second half of a surrogate pair whose first half is `high`. -/
def pair? (high : Nat) : List Char → Option (Char × List Char)
  | '\\' :: 'u' :: rest => do
    let (low, rest) ← unit? rest
    if 0xDC00 ≤ low ∧ low ≤ 0xDFFF
    then return (Char.ofNat (0x10000 + (high - 0xD800) * 0x400 + (low - 0xDC00)), rest)
    else none
  | _ => none

/-- The character that one letter after a backslash stands for. -/
def shortEscape? (c : Char) : Option Char :=
  match c with
  | '"' => some '"'
  | '\\' => some '\\'
  | '/' => some '/'
  | 'b' => some '\x08'
  | 'f' => some '\x0c'
  | 'n' => some '\n'
  | 'r' => some '\r'
  | 't' => some '\t'
  | _ => none

/-- The character that starts with a UTF-16 unit, `none` if the unit is half a
surrogate pair whose other half is not there, and the text after it. -/
def character (unit : Nat) (rest : List Char) : Option Char × List Char :=
  if unit < 0xD800 ∨ 0xDFFF < unit then (some (Char.ofNat unit), rest)
  else if unit ≤ 0xDBFF then
    match pair? unit rest with
    | some (c, later) => (some c, later)
    | none => (none, rest)
  else (none, rest)

/-- The character that the text after a backslash stands for, `none` if it is half a
surrogate pair. -/
def escape? : List Char → Option (Option Char × List Char)
  | [] => none
  | 'u' :: rest => (unit? rest).map fun p => character p.1 p.2
  | c :: rest => (shortEscape? c).map fun x => (some x, rest)

theorem unit?_shorter {cs rest : List Char} {n : Nat} (h : unit? cs = some (n, rest)) :
    rest.length < cs.length := by
  unfold unit? at h
  split at h
  · simp [Option.bind_eq_some_iff] at h
    grind
  · simp at h

theorem pair?_shorter {high : Nat} {cs rest : List Char} {c : Char}
    (h : pair? high cs = some (c, rest)) : rest.length < cs.length := by
  unfold pair? at h
  split at h
  · obtain ⟨⟨low, later⟩, hunit, h⟩ := Option.bind_eq_some_iff.1 h
    have := unit?_shorter hunit
    grind
  · simp at h

theorem character_not_longer (unit : Nat) (cs : List Char) :
    (character unit cs).2.length ≤ cs.length := by
  unfold character
  split
  · exact Nat.le_refl _
  · split
    · split
      · next hpair => exact Nat.le_of_lt (pair?_shorter hpair)
      · exact Nat.le_refl _
    · exact Nat.le_refl _

theorem escape?_shorter {cs rest : List Char} {c : Option Char}
    (h : escape? cs = some (c, rest)) : rest.length < cs.length := by
  unfold escape? at h
  split at h
  · simp at h
  · obtain ⟨⟨unit, later⟩, hunit, h⟩ := Option.map_eq_some_iff.1 h
    have hshort := unit?_shorter hunit
    have hrest := character_not_longer unit later
    rw [h] at hrest
    exact Nat.lt_succ_of_lt (Nat.lt_of_le_of_lt hrest hshort)
  · obtain ⟨x, _, h⟩ := Option.map_eq_some_iff.1 h
    grind

/-- Reads a string up to its closing quote; `done` holds its characters so far,
last first, and is `none` after half a surrogate pair. -/
def stringFrom? (done : Option (List Char)) : List Char → Option (Option String × List Char)
  | [] => none
  | c :: rest =>
    if c = '"' then some (done.map fun cs => String.ofList cs.reverse, rest)
    else if c = '\\' then
      match _h : escape? rest with
      | none => none
      | some (x, later) => stringFrom? (done.bind fun cs => x.map (· :: cs)) later
    else if c < ' ' then none
    else stringFrom? (done.map (c :: ·)) rest
termination_by cs => cs.length
decreasing_by
  · have := escape?_shorter (by assumption)
    simp only [List.length_cons]
    omega
  · simp

/-- The digits at the start of a text, if there is one, and the rest. -/
def digits? (cs : List Char) : Option (List Char × List Char) :=
  let digits := cs.takeWhile Decimal.isDigit
  if digits.isEmpty then none else some (digits, cs.dropWhile Decimal.isDigit)

/-- The whole part of a numeral: a single zero, or digits without a leading zero. -/
def wholePart? : List Char → Option (List Char × List Char)
  | '0' :: rest => some (['0'], rest)
  | cs => digits? cs

/-- The fraction of a numeral, if a point stands here. -/
def fraction? : List Char → Option (Option (List Char) × List Char)
  | '.' :: rest => (digits? rest).map fun p => (some p.1, p.2)
  | cs => some (none, cs)

/-- The exponent of a numeral, if its letter stands here. -/
def exponent? : List Char → Option (Option (Bool × List Char) × List Char)
  | [] => some (none, [])
  | e :: rest =>
    if e = 'e' ∨ e = 'E' then
      match rest with
      | '+' :: digits => (digits? digits).map fun p => (some (false, p.1), p.2)
      | '-' :: digits => (digits? digits).map fun p => (some (true, p.1), p.2)
      | digits => (digits? digits).map fun p => (some (false, p.1), p.2)
    else some (none, e :: rest)

/-- The numeral at the start of a text. -/
def numeral? (cs : List Char) : Option (Numeral × List Char) := do
  let (negative, cs) := match cs with
    | '-' :: rest => (true, rest)
    | cs => (false, cs)
  let (whole, cs) ← wholePart? cs
  let (fraction, cs) ← fraction? cs
  let (exponent, cs) ← exponent? cs
  return (⟨negative, whole, fraction, exponent⟩, cs)

/-- The rest of a text that starts with the given characters. -/
def after? : List Char → List Char → Option (List Char)
  | [], cs => some cs
  | _ :: _, [] => none
  | w :: word, c :: cs => if w = c then after? word cs else none

/-- The token at the start of a text and the text after it. -/
def Token.next? : List Char → Option (Token × List Char)
  | [] => none
  | c :: rest =>
    match c with
    | '[' => some (.openArray, rest)
    | ']' => some (.closeArray, rest)
    | '\x7b' => some (.openObject, rest)
    | '\x7d' => some (.closeObject, rest)
    | ',' => some (.comma, rest)
    | ':' => some (.colon, rest)
    | 'n' => (after? ['u', 'l', 'l'] rest).map (.null, ·)
    | 't' => (after? ['r', 'u', 'e'] rest).map (.bool true, ·)
    | 'f' => (after? ['a', 'l', 's', 'e'] rest).map (.bool false, ·)
    | '"' => (stringFrom? (some []) rest).map fun p => (.text p.1, p.2)
    | _ => (numeral? (c :: rest)).map fun p => (.number p.1, p.2)

theorem stringFrom?_shorter {done : Option (List Char)} {cs rest : List Char}
    {s : Option String} (h : stringFrom? done cs = some (s, rest)) : rest.length < cs.length := by
  fun_induction stringFrom? done cs with
  | case1 => simp at h
  | case2 => grind
  | case3 => simp at h
  | case4 done rest x later hescape _ ih =>
    have := escape?_shorter hescape
    have := ih h
    grind
  | case5 => simp at h
  | case6 done c rest _ _ _ ih =>
    have := ih h
    grind

theorem digits?_shorter {cs rest digits : List Char} (h : digits? cs = some (digits, rest)) :
    rest.length < cs.length := by
  have hcs : cs.takeWhile Decimal.isDigit ++ cs.dropWhile Decimal.isDigit = cs :=
    List.takeWhile_append_dropWhile
  have hlength := congrArg List.length hcs
  simp only [digits?] at h
  split at h
  · simp at h
  · rename_i hne
    have : 0 < (cs.takeWhile Decimal.isDigit).length := by
      rw [List.length_pos_iff]
      simpa using hne
    simp only [List.length_append] at hlength
    grind

theorem wholePart?_shorter {cs rest digits : List Char}
    (h : wholePart? cs = some (digits, rest)) : rest.length < cs.length := by
  unfold wholePart? at h
  split at h
  · grind
  · exact digits?_shorter h

theorem fraction?_not_longer {cs rest : List Char} {digits : Option (List Char)}
    (h : fraction? cs = some (digits, rest)) : rest.length ≤ cs.length := by
  unfold fraction? at h
  split at h
  · obtain ⟨⟨found, later⟩, hdigits, h⟩ := Option.map_eq_some_iff.1 h
    have := digits?_shorter hdigits
    grind
  · grind

theorem exponent?_not_longer {cs rest : List Char} {found : Option (Bool × List Char)}
    (h : exponent? cs = some (found, rest)) : rest.length ≤ cs.length := by
  unfold exponent? at h
  split at h
  · grind
  · split at h
    · split at h
      all_goals
        obtain ⟨⟨digits, later⟩, hdigits, h⟩ := Option.map_eq_some_iff.1 h
        have := digits?_shorter hdigits
        grind
    · grind

theorem numeral?_shorter {cs rest : List Char} {n : Numeral}
    (h : numeral? cs = some (n, rest)) : rest.length < cs.length := by
  unfold numeral? at h
  obtain ⟨⟨whole, afterWhole⟩, hwhole, h⟩ := Option.bind_eq_some_iff.1 h
  obtain ⟨⟨fraction, afterFraction⟩, hfraction, h⟩ := Option.bind_eq_some_iff.1 h
  obtain ⟨⟨exponent, afterExponent⟩, hexponent, h⟩ := Option.bind_eq_some_iff.1 h
  have h1 := wholePart?_shorter hwhole
  have h2 := fraction?_not_longer hfraction
  have h3 := exponent?_not_longer hexponent
  have h4 : afterExponent = rest := by simp_all
  subst h4
  refine Nat.lt_of_le_of_lt (Nat.le_trans h3 h2) (Nat.lt_of_lt_of_le h1 ?_)
  split <;> simp

theorem after?_not_longer {word cs rest : List Char} (h : after? word cs = some rest) :
    rest.length ≤ cs.length := by
  fun_induction after? word cs with
  | case1 => simp_all
  | case2 => simp at h
  | case3 _ _ cs ih => exact Nat.le_succ_of_le (ih h)
  | case4 => simp at h

/-- A token is never empty. -/
theorem Token.next?_shorter {cs rest : List Char} {t : Token}
    (h : Token.next? cs = some (t, rest)) : rest.length < cs.length := by
  unfold Token.next? at h
  split at h
  · simp at h
  · split at h
    · grind
    · grind
    · grind
    · grind
    · grind
    · grind
    · obtain ⟨later, hlater, h⟩ := Option.map_eq_some_iff.1 h
      have := after?_not_longer hlater
      grind
    · obtain ⟨later, hlater, h⟩ := Option.map_eq_some_iff.1 h
      have := after?_not_longer hlater
      grind
    · obtain ⟨later, hlater, h⟩ := Option.map_eq_some_iff.1 h
      have := after?_not_longer hlater
      grind
    · obtain ⟨⟨s, later⟩, hlater, h⟩ := Option.map_eq_some_iff.1 h
      have := stringFrom?_shorter hlater
      grind
    · obtain ⟨⟨n, later⟩, hlater, h⟩ := Option.map_eq_some_iff.1 h
      have := numeral?_shorter hlater
      grind

end ChannelRelay.Json
