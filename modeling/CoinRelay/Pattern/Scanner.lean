import CoinRelay.Text.Blank

/-!
# Reading patterns

What is left of a pattern to read, and what was learnt from the part before: the modes that it has set, the names of its
groups, and whether it looks for the bounds of words.

- `Scanner`: the state between two steps; `Reader`: a step, which may fail;
- `skipSpace`: passes over what stands between the parts of a pattern, where blanks may;
- `Row`: how deep things in a row are nested.
-/

namespace CoinRelay.Pattern

open Text

/-- How the rest of a group is meant. -/
structure Modes where
  ignoresCase : Bool := false
  isUnicode : Bool := true
  ignoresSpace : Bool := false
  deriving DecidableEq, Repr

/-- What is left to read, and what was learnt. -/
structure Scanner where
  rest : List Char
  modes : Modes := {}
  names : List String := []
  boundsWords : Bool := false

/-- A step that may fail. -/
abbrev Reader := StateT Scanner Option

namespace Reader

/-! ## Characters -/

/-- The next character, if there is one. -/
def peek? : Reader (Option Char) := return (← get).rest.head?

/-- The next character. -/
def peek : Reader Char := do
  let some c ← peek? | failure
  return c

/-- Passes over a count of characters. -/
def drop (n : Nat) : Reader Unit := modify fun s => { s with rest := s.rest.drop n }

/-- Takes the next character, if there is one. -/
def take? : Reader (Option Char) := do
  let c ← peek?
  drop 1
  return c

/-- Takes the next character. -/
def take : Reader Char := do
  let some c ← take? | failure
  return c

/-- Passes over a text if it comes next, and says whether it did. -/
def skip? (text : String) : Reader Bool := do
  let isNext := text.toList.isPrefixOf (← get).rest
  if isNext then drop text.length
  return isNext

/-! ## Blanks -/

/-- Drops blanks and remarks, each of which ends with its line. -/
def dropSpace (isRemark : Bool) : List Char → List Char
  | [] => []
  | c :: cs =>
    if isRemark then dropSpace (c ≠ '\n') cs
    else if isBlank c then dropSpace false cs
    else if c = '#' then dropSpace true cs
    else c :: cs

/-- Passes over blanks and remarks where they have no meaning. -/
def skipSpace : Reader Unit :=
  modify fun s => if s.modes.ignoresSpace then { s with rest := dropSpace false s.rest } else s

/-- Takes the next character and passes over the blanks behind it. -/
def takeSpaced : Reader Char := do
  let c ← take
  skipSpace
  return c

/-- Fails unless a condition on the modes holds. -/
def require (condition : Modes → Bool) : Reader Unit := do
  guard (condition (← get).modes)

end Reader

/-! ## Nesting -/

/-- How many things stand in a row, and how deep the deepest of them is nested. -/
structure Row where
  count : Nat := 0
  deepest : Nat := 0
  deriving DecidableEq, Repr

namespace Row

/-- A row with one thing more. -/
def push (depth : Nat) (r : Row) : Row := { count := r.count + 1, deepest := max r.deepest depth }

/-- How deep a row is nested. Two things or more are a level of their own. -/
def depth (r : Row) : Nat := if r.count ≤ 1 then r.deepest else r.deepest + 1

end Row

end CoinRelay.Pattern
