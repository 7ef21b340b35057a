/-!
# Decimal numerals

Whole numbers as ASCII digits.  Reading is strict: one optional sign, then at
least one digit and nothing else, and the number must lie in the given range.
-/

namespace ChannelRelay.Decimal

/-- An ASCII digit. -/
def isDigit (c : Char) : Bool :=
  '0' ≤ c && c ≤ '9'

/-- The number written by the digits of `n` and one more. -/
def follow (n : Nat) (c : Char) : Nat :=
  n * 10 + (c.toNat - '0'.toNat)

/-- The number that a run of digits denotes. -/
def ofDigits (digits : List Char) : Nat :=
  digits.foldl follow 0

/-- The number that the digits of `n` and more digits denote, if it is at most `largest`.
The first number past `largest` settles it: with each digit the number grows. -/
def extend? (largest n : Nat) : List Char → Option Nat
  | [] => some n
  | c :: rest => if follow n c ≤ largest then extend? largest (follow n c) rest else none

/-- The number that a run of digits denotes, if it is at most `largest`. -/
def upTo? (largest : Nat) (digits : List Char) : Option Nat :=
  extend? largest 0 digits

theorem le_follow (n : Nat) (c : Char) : n ≤ follow n c := by
  unfold follow
  omega

theorem le_foldl_follow (n : Nat) (digits : List Char) : n ≤ digits.foldl follow n := by
  induction digits generalizing n with
  | nil => exact Nat.le_refl n
  | cons c rest ih => exact Nat.le_trans (le_follow n c) (ih (follow n c))

theorem extend?_eq {largest n : Nat} (digits : List Char) (h : n ≤ largest) :
    extend? largest n digits = (some (digits.foldl follow n)).filter (· ≤ largest) := by
  induction digits generalizing n with
  | nil => simp [extend?, Option.filter, h]
  | cons c rest ih =>
    rw [extend?, List.foldl_cons]
    split
    · next hc => exact ih hc
    · next hc =>
      have : ¬ rest.foldl follow (follow n c) ≤ largest :=
        fun hl => hc (Nat.le_trans (le_foldl_follow _ rest) hl)
      simp [Option.filter, this]

/-- Stopping early changes nothing. -/
theorem upTo?_eq (largest : Nat) (digits : List Char) :
    upTo? largest digits = (some (ofDigits digits)).filter (· ≤ largest) :=
  extend?_eq digits (Nat.zero_le largest)

/-- The number that one or more digits denote, if it is at most `largest`. -/
def read? (largest : Nat) (digits : List Char) : Option Nat :=
  if digits.isEmpty || !digits.all isDigit then none else upTo? largest digits

/-- A number of at most `largest`, with an optional plus sign. -/
def readNat? (largest : Nat) (text : String) : Option Nat :=
  match text.toList with
  | '+' :: rest => read? largest rest
  | digits => read? largest digits

/-- A number between `least` and `largest`, with an optional sign. -/
def readInt? (least largest : Int) (text : String) : Option Int :=
  let number := match text.toList with
    | '+' :: rest => (read? largest.toNat rest).map Int.ofNat
    | '-' :: rest => (read? least.natAbs rest).map fun n => -Int.ofNat n
    | digits => (read? largest.toNat digits).map Int.ofNat
  number.filter fun n => least ≤ n && n ≤ largest

/-- The digits of a number, with zeros in front up to a width. -/
def padded (width n : Nat) : String :=
  String.ofList ((Nat.toDigits 10 n).leftpad width '0')

end ChannelRelay.Decimal
