import CoinRelay.Octets

/-!
# Hexadecimal text

Two digits an octet, the high half first.

- `Hex.encode` writes lowercase digits;
- `Hex.decode?` reads digits of either case and refuses an odd count of them;
- `Hex.isLower` says whether a text is all lowercase digits, an even count of them.
-/

namespace CoinRelay.Hex

/-! ## Digits -/

/-- The value of a hexadecimal digit of either case. -/
def value? (c : Char) : Option Nat :=
  if '0' ≤ c ∧ c ≤ '9' then some (c.toNat - '0'.toNat)
  else if 'a' ≤ c ∧ c ≤ 'f' then some (c.toNat - 'a'.toNat + 10)
  else if 'A' ≤ c ∧ c ≤ 'F' then some (c.toNat - 'A'.toNat + 10)
  else none

/-- The two lowercase digits of an octet. -/
def digits (b : UInt8) : List Char :=
  [Nat.digitChar (b.toNat / 16), Nat.digitChar (b.toNat % 16)]

/-- The decimal digits and the letters `a` to `f`. -/
def isLowerDigit (c : Char) : Bool :=
  ('0' ≤ c && c ≤ '9') || ('a' ≤ c && c ≤ 'f')

/-! ## Text -/

/-- The lowercase text of octets. -/
def encode (o : Octets) : String :=
  String.ofList (o.flatMap digits)

/-- Reads pairs of digits behind the octets read so far, the last of which comes first. -/
def decodeBehind (read : Octets) : List Char → Option Octets
  | [] => some read.reverse
  | [_] => none
  | a :: b :: rest =>
    match value? a, value? b with
    | some x, some y => decodeBehind (UInt8.ofNat (16 * x + y) :: read) rest
    | _, _ => none

/-- The octets that a text of digit pairs writes. -/
def decode? (s : String) : Option Octets :=
  decodeBehind [] s.toList

/-- Whether a text holds an even count of characters, all of them lowercase digits. -/
def isLower (s : String) : Bool :=
  s.utf8ByteSize % 2 == 0 && s.toList.all isLowerDigit

end CoinRelay.Hex
