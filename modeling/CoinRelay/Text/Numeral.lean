/-!
# Decimal numerals

Whole numbers in decimal, read from left to right into a range. The first character that is no digit, or the first digit
that leaves the range, decides why a text is refused.

- `Numeral.natural`: a number with an upper bound; a plus sign may stand in front;
- `Numeral.integer`: a number between two bounds; either sign may stand in front.
-/

namespace CoinRelay

/-- Why a text is no numeral of a range. -/
inductive NumeralFault
  | empty
  | invalidDigit
  | tooLarge
  | tooSmall
  deriving DecidableEq, Repr

/-- The text of a cause. -/
def NumeralFault.message : NumeralFault → String
  | empty => "cannot parse integer from empty string"
  | invalidDigit => "invalid digit found in string"
  | tooLarge => "number too large to fit in target type"
  | tooSmall => "number too small to fit in target type"

namespace Numeral

/-- The value of a decimal digit. -/
def value? (c : Char) : Option Nat :=
  if '0' ≤ c ∧ c ≤ '9' then some (c.toNat - '0'.toNat) else none

/-- Reads digits behind the value of those before. A value above the bound is the fault `excess`. -/
def digits (bound : Nat) (excess : NumeralFault) : (value : Nat) → List Char → Except NumeralFault Nat
  | value, [] => .ok value
  | value, c :: cs =>
    match value? c with
    | none => .error .invalidDigit
    | some d => if 10 * value + d ≤ bound then digits bound excess (10 * value + d) cs else .error excess

/-- Reads one digit or more. -/
def someDigits (bound : Nat) (excess : NumeralFault) : List Char → Except NumeralFault Nat
  | [] => .error .invalidDigit
  | cs => digits bound excess 0 cs

/-- A number up to `max`. -/
def natural (max : Nat) (s : String) : Except NumeralFault Nat :=
  match s.toList with
  | [] => .error .empty
  | '+' :: cs => someDigits max .tooLarge cs
  | cs => someDigits max .tooLarge cs

/-- A number from `-min` up to `max`. -/
def integer (min max : Nat) (s : String) : Except NumeralFault Int :=
  match s.toList with
  | [] => .error .empty
  | '-' :: cs => (someDigits min .tooSmall cs).map fun n => -(Int.ofNat n)
  | '+' :: cs => (someDigits max .tooLarge cs).map Int.ofNat
  | cs => (someDigits max .tooLarge cs).map Int.ofNat

end Numeral

end CoinRelay
