import CoinRelay.Pattern.Escape

/-!
# Sets in brackets

A set lists its members, which are characters, ranges of them, classes by name and sets in brackets of their own. Two
lists may be joined by doubled signs, which take what both have in common, and the like. Where case is ignored, a set may
have no members but sets: those that list no character are empty or hold all, so case makes no difference to them.

- `Bracket.read`: reads a set behind its opening bracket, to how deep it is nested.
-/

namespace CoinRelay.Pattern.Bracket

open Reader Text

/-! ## Classes by name -/

/-- The names of classes. -/
def classNames : List String :=
  ["alnum", "alpha", "ascii", "blank", "cntrl", "digit", "graph", "lower", "print", "punct", "space", "upper", "word",
   "xdigit"]

/-- What follows a class by name, and whether it is that of all other characters. -/
def splitClass? : List Char → Option (Bool × List Char)
  | '[' :: ':' :: cs =>
    let isNegated := cs.head? = some '^'
    let cs := if isNegated then cs.drop 1 else cs
    let name := cs.takeWhile (· ≠ ':')
    match cs.drop name.length with
    | ':' :: ']' :: rest => if String.ofList name ∈ classNames then some (isNegated, rest) else none
    | _ => none
  | _ => none

/-- Reads a class by name if one comes next, and says whether it did. -/
def namedClass? : Reader Bool := do
  match splitClass? (← get).rest with
  | none => return false
  | some (isNegated, rest) =>
    require fun m => if m.isUnicode then !m.ignoresCase else !isNegated
    modify fun s => { s with rest }
    return true

/-! ## Members -/

/-- Reads a member that is no set. -/
def primitive : Reader Primitive := do
  match ← take with
  | '\\' => escape
  | c => return .plain c

/-- What comes behind the next character and the blanks after it, among which is the first sign of a remark. -/
def behindNext (modes : Modes) (cs : List Char) : Option Char :=
  let cs := cs.drop 1
  if !modes.ignoresSpace then cs.head?
  else
    match cs.dropWhile isBlank with
    | '#' :: cs => (cs.dropWhile isBlank).head?
    | cs => cs.head?

/-- Reads a character that is the end of a range, or fails. -/
def rangeEnd (p : Primitive) : Reader Char := do
  let .literal c _ := p | failure
  return c

/-- Reads a member, or a range of them. A dash before a bracket or another dash makes no range. -/
def member : Reader Unit := do
  let first ← primitive
  first.checkMember
  skipSpace
  let s ← get
  if (← peek) = '-' ∧ behindNext s.modes s.rest ∉ [some ']', some '-'] then
    let _ ← takeSpaced
    let last ← primitive
    last.checkMember
    guard ((← rangeEnd first) ≤ (← rangeEnd last))

/-! ## Sets -/

/-- What was read of a set: how deep the lists before the last sign are nested, and the list behind it. -/
structure Lists where
  before : Option Nat := none
  current : Row := {}

namespace Lists

/-- Adds a member to the list. -/
def push (depth : Nat) (l : Lists) : Lists := { l with current := l.current.push depth }

/-- How deep all lists are nested. -/
def depth (l : Lists) : Nat :=
  match l.before with
  | none => l.current.depth
  | some before => max before l.current.depth + 1

/-- Ends the list at a sign. -/
def split (l : Lists) : Lists := { before := some l.depth }

end Lists

/-- Reads the dashes in front of all other members. -/
def dashes : (fuel : Nat) → Lists → Reader Lists
  | 0, _ => failure
  | fuel + 1, l => do
    if (← peek) = '-' then
      let _ ← takeSpaced
      (Primitive.plain '-').checkMember
      dashes fuel (l.push 0)
    else return l

/-- Reads what a set may start with: the sign that negates it, dashes, and a closing bracket that is a member. All other
characters have a meaning only where characters are not octets. -/
def opening (fuel : Nat) : Reader Lists := do
  skipSpace
  if (← peek) = '^' then
    let _ ← takeSpaced
    require (·.isUnicode)
  let l ← dashes fuel {}
  if l.current.count = 0 ∧ (← peek) = ']' then
    let _ ← takeSpaced
    (Primitive.plain ']').checkMember
    return l.push 0
  return l

/-- Reads the rest of a set, to how deep it is nested. -/
def body : (fuel : Nat) → Lists → Reader Nat
  | 0, _ => failure
  | fuel + 1, l => do
    skipSpace
    if (← peek) = '[' then
      if ← namedClass? then body fuel (l.push 0)
      else
        drop 1
        let depth ← body fuel (← opening fuel)
        body fuel (l.push depth)
    else if ← skip? "]" then return l.depth + 1
    else if ← skip? "&&" then body fuel l.split
    else if ← skip? "--" then body fuel l.split
    else if ← skip? "~~" then body fuel l.split
    else
      member
      body fuel (l.push 0)

/-- Reads a set behind its opening bracket, to how deep it is nested. -/
def read : Reader Nat := do
  let fuel := (← get).rest.length + 1
  body fuel (← opening fuel)

end CoinRelay.Pattern.Bracket
