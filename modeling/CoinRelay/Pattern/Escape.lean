import CoinRelay.Pattern.Scanner
import CoinRelay.Text.Hex

/-!
# Escapes

The smallest parts of a pattern, most of which are characters that stand for themselves, and how a backslash writes one.
There are no tables of classes or of letter case beyond ASCII, so what would need them has no meaning.

- `Primitive`: such a part; `escape`: reads one behind a backslash;
- `Primitive.check`, `Primitive.checkMember`: fail where a primitive has no meaning, alone and in a set.
-/

namespace CoinRelay.Pattern

open Reader

/-- A smallest part of a pattern. A literal may be written by the number of an octet, a shorthand for a class may be
that for all other characters. -/
inductive Primitive
  | literal (c : Char) (isOctet : Bool)
  | shorthand (isNegated : Bool)
  | dot
  | anchor
  | wordBound
  deriving DecidableEq, Repr

namespace Primitive

/-- A character that stands for itself. -/
def plain (c : Char) : Primitive := .literal c false

/-- Whether a shorthand has a meaning: only those for ASCII characters do. -/
def hasShorthand (isNegated : Bool) (m : Modes) : Bool := !m.isUnicode && !isNegated

/-- Fails where a primitive has no meaning. -/
def check : Primitive → Reader Unit
  | literal c isOctet => require fun m => if m.isUnicode then !m.ignoresCase else !(isOctet && 0x80 ≤ c.toNat)
  | shorthand isNegated => require (hasShorthand isNegated)
  | dot => require (·.isUnicode)
  | anchor => return
  | wordBound => modify fun s => { s with boundsWords := s.boundsWords || s.modes.isUnicode }

/-- Fails where a primitive has no meaning as a member of a set. -/
def checkMember : Primitive → Reader Unit
  | literal c _ => require fun m => if m.isUnicode then !m.ignoresCase else c.toNat < 0x80
  | shorthand isNegated => require (hasShorthand isNegated)
  | dot | anchor | wordBound => failure

end Primitive

/-! ## Reading -/

/-- Reads a count of hexadecimal digits behind those read so far. -/
def digits : (count value : Nat) → Reader Nat
  | 0, value => return value
  | count + 1, value => do
    let some d := Hex.value? (← takeSpaced) | failure
    digits count (16 * value + d)

/-- Reads the number of a character in hexadecimal. -/
def numbered (count : Nat) : Reader Primitive := do
  skipSpace
  let value ← digits count 0
  guard value.isValidChar
  return .literal (Char.ofNat value) (count = 2)

/-- Whether a backslash may stand before a character for nothing. -/
def isEscapable (c : Char) : Bool := c.toNat < 0x80 && !c.isAlphanum && c ≠ '<' && c ≠ '>'

/-- Reads what follows a backslash. -/
def escape : Reader Primitive := do
  match ← take with
  | 'x' => numbered 2
  | 'u' => numbered 4
  | 'U' => numbered 8
  | 'd' | 's' | 'w' => return .shorthand false
  | 'D' | 'S' | 'W' => return .shorthand true
  | 'a' => return .plain '\x07'
  | 'f' => return .plain '\x0c'
  | 'n' => return .plain '\n'
  | 'r' => return .plain '\r'
  | 't' => return .plain '\t'
  | 'v' => return .plain '\x0b'
  | 'A' | 'z' => return .anchor
  | 'b' | 'B' | '<' | '>' => return .wordBound
  | c => if isEscapable c then return .plain c else failure

end CoinRelay.Pattern
