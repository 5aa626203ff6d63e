import CoinRelay.Text.Quoted

/-!
# Cutting texts at octets

Parts of a text by the octets of its UTF-8 form. No character is cut in two: an index inside of one is a fault.

- `splitOctets`: the characters before an index and those after it;
- `between`: the part between two indexes; `CutFault.message`: the text of a fault.
-/

namespace CoinRelay.Text

/-- An index at which a text cannot be cut: whether a part was to start or to end there, and the character around it,
with the octets before that. -/
structure CutFault where
  isStart : Bool
  index : Nat
  around : Char
  before : Nat
  deriving DecidableEq, Repr

/-- The text of a fault. -/
def CutFault.message (f : CutFault) : String :=
  let side := if f.isStart then "start" else "end"
  let place := s!"{Quoted.character f.around} (bytes {f.before}..{f.before + f.around.utf8Size} of string)"
  s!"{side} byte index {f.index} is not a char boundary; it is inside {place}"

/-- The characters of the first `n` octets and those after them, or the character that is cut, with the number of its
octets among them. -/
def splitOctets : (n : Nat) → List Char → Except (Char × Nat) (List Char × List Char)
  | 0, cs => .ok ([], cs)
  | _, [] => .ok ([], [])
  | n, c :: cs =>
    if n < c.utf8Size then .error (c, n)
    else (splitOctets (n - c.utf8Size) cs).map fun (front, rest) => (c :: front, rest)

/-- The part of a text from one index up to another. -/
def between (first last : Nat) (cs : List Char) : Except CutFault (List Char) := do
  let fault (isStart : Bool) (index : Nat) : Char × Nat → CutFault :=
    fun (around, inside) => { isStart, index, around, before := index - inside }
  let (_, rest) ← (splitOctets first cs).mapError (fault true first)
  let _ ← (splitOctets last cs).mapError (fault false last)
  let (part, _) ← (splitOctets (last - first) rest).mapError (fault false last)
  return part

end CoinRelay.Text
