import CoinRelay.Pattern.Escape
import CoinRelay.Text.Letter

/-!
# Openings of groups

A group may have a name, or modes that hold inside of it. Modes between parentheses of their own hold for the rest of
the group around them.

- `Opening.read`: reads what follows an opening parenthesis.
-/

namespace CoinRelay.Pattern

open Reader Text

/-- What an opening parenthesis leads to: a group with modes, or modes alone. -/
inductive Opening
  | group (inner : Modes)
  | modes (rest : Modes)
  deriving DecidableEq, Repr

/-! ## Names -/

/-- Whether a text may name a group. -/
def isGroupName : List Char → Bool
  | [] => false
  | c :: cs => (c = '_' || isLetter c) && cs.all fun c => c ∈ ['_', '.', '[', ']'] || isAlphanumeric c

/-- Reads the name of a group up to its end. No two groups have the same. -/
def groupName : Reader Unit := do
  let s ← get
  let name := s.rest.takeWhile (· ≠ '>')
  guard (isGroupName name ∧ name.length < s.rest.length ∧ String.ofList name ∉ s.names)
  set { s with rest := s.rest.drop (name.length + 1), names := String.ofList name :: s.names }

/-! ## Modes -/

/-- The signs of modes, and the one that turns off those behind it. -/
def modeSigns : List Char := ['i', 'm', 's', 'U', 'u', 'R', 'x', '-']

/-- Sets the mode of a sign. The others change what a pattern means, but not whether it has a meaning. -/
def Modes.put (isOn : Bool) (m : Modes) : Char → Modes
  | 'i' => { m with ignoresCase := isOn }
  | 'u' => { m with isUnicode := isOn }
  | 'x' => { m with ignoresSpace := isOn }
  | _ => m

/-- Sets the modes that signs turn on and off. -/
def Modes.change (m : Modes) (signs : List Char) : Modes :=
  (signs.dropWhile (· ≠ '-')).foldl (Modes.put false) ((signs.takeWhile (· ≠ '-')).foldl (Modes.put true) m)

/-- Reads the signs of modes and the character that ends them. No sign stands twice, and the one that turns off is not
the last. -/
def modeOpening : Reader Opening := do
  let s ← get
  let signs := s.rest.takeWhile fun c => c ≠ ':' && c ≠ ')'
  guard (signs.all (· ∈ modeSigns) ∧ signs.eraseDups.length = signs.length ∧ signs.getLast? ≠ some '-')
  drop signs.length
  let modes := s.modes.change signs
  match ← take with
  | ')' => if signs.isEmpty then failure else return .modes modes
  | _ => return .group modes

/-- Reads what follows an opening parenthesis. -/
def Opening.read : Reader Opening := do
  skipSpace
  let modes := (← get).modes
  if ← skip? "?P<" then groupName *> return .group modes
  else if ← skip? "?<" then groupName *> return .group modes
  else if ← skip? "?" then modeOpening
  else return .group modes

end CoinRelay.Pattern
