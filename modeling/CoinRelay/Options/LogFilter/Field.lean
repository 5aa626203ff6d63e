import CoinRelay.Pattern.Basic

/-!
# Fields of log filters

A directive may ask for a field by its name, or for a value of it behind an equals sign: a truth value, a number, or a
pattern that the value is to match.

- `Field.fault?`: what is wrong with the value that is asked for.
-/

namespace CoinRelay.LogFilter.Field

/-- Drops one of some characters off the front. -/
def dropOne (choice : List Char) (cs : List Char) : List Char :=
  if cs.head?.any (· ∈ choice) then cs.drop 1 else cs

/-- The digits at the front, and what follows them. -/
def splitDigits (cs : List Char) : List Char × List Char := (cs.takeWhile Char.isDigit, cs.dropWhile Char.isDigit)

/-- Whether characters are a power of ten behind its sign, or nothing. -/
def isExponent : List Char → Bool
  | [] => true
  | c :: cs =>
    let digits := dropOne ['+', '-'] cs
    c ∈ ['e', 'E'] && !digits.isEmpty && digits.all Char.isDigit

/-- Whether a text is a number: digits, among which a point may stand, and a power of ten; or one that is none, or
beyond all others. -/
def isNumber (s : String) : Bool :=
  let cs := dropOne ['+', '-'] s.toList
  let (whole, rest) := splitDigits cs
  let (part, rest) := if rest.head? = some '.' then splitDigits (rest.drop 1) else ([], rest)
  let isWord := (String.ofList cs).toLower ∈ ["inf", "infinity", "nan"]
  isWord || (!(whole.isEmpty && part.isEmpty) && isExponent rest)

/-- What is wrong with a field, if anything is. The value ends at a second equals sign. -/
def fault? (field : String) : Option Pattern.Fault :=
  match field.splitOn "=" with
  | _ :: value :: _ => if value ∈ ["true", "false"] || isNumber value then none else Pattern.fault? value
  | _ => none

end CoinRelay.LogFilter.Field
