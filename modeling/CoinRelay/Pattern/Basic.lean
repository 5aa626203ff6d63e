import CoinRelay.Pattern.Bracket
import CoinRelay.Pattern.Group

/-!
# Patterns

A pattern is a choice between rows of parts, each of which may be repeated. Whether a text is one is found in a single
reading, which goes along with the modes that the pattern sets on the way.

- `Pattern.fault?`: what is wrong with a pattern, if anything is.
-/

namespace CoinRelay.Pattern

open Reader

/-- Why a pattern cannot be used: it has no meaning, or it looks for the bounds of words of all scripts. -/
inductive Fault
  | meaningless
  | wordBounds
  deriving DecidableEq, Repr

/-- The text of a cause. -/
def Fault.message : Fault → String
  | meaningless => "error building NFA"
  | wordBounds =>
    "unsupported regex feature for DFAs: cannot build DFAs for regexes with Unicode word boundaries; " ++
      "switch to ASCII word boundaries, or heuristically enable Unicode word boundaries or use a different regex engine"

/-! ## Choices -/

/-- What was read of a choice: the rows before the last bar, the row behind it, and how deep its last part is nested if
that can be repeated. -/
structure Choice where
  before : Row := {}
  current : Row := {}
  last : Option Nat := none

namespace Choice

/-- Adds a part to the row. -/
def push (depth : Nat) (c : Choice) : Choice := { c with current := c.current.push depth, last := some depth }

/-- Adds a change of modes to the row. -/
def pushModes (c : Choice) : Choice := { c with current := c.current.push 0, last := none }

/-- Repeats the last part of the row, which is nested as deep as given. -/
def repeatLast (depth : Nat) (c : Choice) : Choice :=
  { c with current := { c.current with deepest := max c.current.deepest (depth + 1) }, last := some (depth + 1) }

/-- Ends the row at a bar. -/
def split (c : Choice) : Choice := { before := c.before.push c.current.depth }

/-- How deep all rows are nested. -/
def depth (c : Choice) : Nat := (c.before.push c.current.depth).depth

end Choice

/-! ## Reading -/

/-- Reads a smallest part, of which the first character was taken. -/
def part (c : Char) : Reader Primitive := do
  match c with
  | '\\' => escape
  | '.' => return .dot
  | '^' | '$' => return .anchor
  | c => return .plain c

/-- Reads the rest of a choice, to how deep it is nested. In a group it ends with a parenthesis, else with the text. A
brace would open a count of repetitions, but patterns stand in braces themselves, so there is none to close it. -/
def body (isGroup : Bool) : (fuel : Nat) → Choice → Reader Nat
  | 0, _ => failure
  | fuel + 1, choice => do
    skipSpace
    match ← take? with
    | none => if isGroup then failure else return choice.depth
    | some ')' => if isGroup then return choice.depth else failure
    | some '|' => body isGroup fuel choice.split
    | some '(' =>
      let outer := (← get).modes
      match ← Opening.read with
      | .modes modes =>
        modify fun s => { s with modes }
        body isGroup fuel choice.pushModes
      | .group modes =>
        modify fun s => { s with modes }
        let depth ← body true fuel {}
        modify fun s => { s with modes := outer }
        body isGroup fuel (choice.push (depth + 1))
    | some '[' => body isGroup fuel (choice.push (← Bracket.read))
    | some '?' | some '*' | some '+' =>
      let some depth := choice.last | failure
      let _ ← skip? "?"
      body isGroup fuel (choice.repeatLast depth)
    | some '\x7b' => failure
    | some c =>
      (← part c).check
      body isGroup fuel (choice.push 0)

/-- The deepest that a pattern may be nested. -/
def depthLimit : Nat := 250

/-- What is wrong with a pattern, if anything is. -/
def fault? (s : String) : Option Fault :=
  match body false (s.length + 1) {} { rest := s.toList } with
  | none => some .meaningless
  | some (depth, scanner) =>
    if depthLimit < depth then some .meaningless
    else if scanner.boundsWords then some .wordBounds
    else none

end CoinRelay.Pattern
