import CoinRelay.Text.Hex

/-!
# Socket addresses

A host by number and a socket number. Hosts are four octets, or eight groups of sixteen bits of which a run of zeros
may be left out once; the last two groups may be written as four octets. Names are not looked up.

- `Address.parse?`: the address that a text writes;
- `Host.text`: the shortest form of a host, which leaves out the first of the longest runs of two zeros or more;
- `Host.isCommon`: whether a host is one of those that every machine has.
-/

namespace CoinRelay

/-- A host by number. -/
inductive Host
  | v4 (octets : Octets)
  | v6 (groups : List Nat)
  deriving DecidableEq, Repr

/-- A host, the interface to reach it by, and a socket number. -/
structure Address where
  host : Host
  scope : Nat := 0
  socket : Nat
  deriving DecidableEq, Repr

namespace Address

/-! ## Characters and numbers -/

/-- Reads off the front of characters, or not at all. -/
abbrev Reader := StateT (List Char) Option

/-- Reads one given character. -/
def char (c : Char) : Reader Unit
  | [] => none
  | d :: cs => if d = c then some ((), cs) else none

/-- The value of a digit of a radix up to sixteen. -/
def digit? (radix : Nat) (c : Char) : Option Nat := (Hex.value? c).filter (· < radix)

/-- Reads all digits there are, at least one, as a number up to a bound. -/
def number (radix bound : Nat) : Reader Nat := fun cs =>
  let digits := cs.takeWhile fun c => (digit? radix c).isSome
  let value := (digits.filterMap (digit? radix)).foldl (fun n d => radix * n + d) 0
  if digits.isEmpty || bound < value then none else some (value, cs.drop digits.length)

/-- Reads a number of at most a count of digits. -/
def shortNumber (radix bound width : Nat) : Reader Nat := fun cs =>
  match number radix bound cs with
  | some (n, rest) => if cs.length - rest.length ≤ width then some (n, rest) else none
  | none => none

/-- Reads what follows a separator, which does not stand before the first of a series. -/
def separated {α : Type} (separator : Char) (isFirst : Bool) (r : Reader α) : Reader α := do
  if !isFirst then char separator
  r

/-! ## Hosts -/

/-- Reads an octet in decimal. A zero stands only alone. -/
def octet : Reader UInt8 := fun cs =>
  match shortNumber 10 255 3 cs with
  | some (n, rest) =>
    if cs.head? = some '0' ∧ rest.length + 1 ≠ cs.length then none else some (UInt8.ofNat n, rest)
  | none => none

/-- Reads four octets with points between them. -/
def fourOctets : Reader Octets := do
  let a ← octet
  let b ← separated '.' false octet
  let c ← separated '.' false octet
  let d ← separated '.' false octet
  return [a, b, c, d]

/-- Reads a group in hexadecimal. -/
def group : Reader Nat := shortNumber 16 0xFFFF 4

/-- Reads up to `limit` groups with colons between them, the last two of which may be four octets; says whether they
were. -/
def groups : (limit : Nat) → (isFirst : Bool) → Reader (List Nat × Bool)
  | 0, _ => pure ([], false)
  | limit + 1, isFirst =>
    (do
      if limit = 0 then failure
      let o ← separated ':' isFirst fourOctets
      return ([Octets.number (o.take 2), Octets.number (o.drop 2)], true)) <|>
    (do
      let g ← separated ':' isFirst group
      let (gs, dotted) ← groups limit false
      return (g :: gs, dotted)) <|>
    pure ([], false)

/-- Reads eight groups, or fewer with a gap of zeros. Four octets do not stand before a gap. -/
def eightGroups : Reader (List Nat) := do
  let (front, dotted) ← groups 8 true
  if front.length = 8 then return front
  if dotted then failure
  char ':'
  char ':'
  let (back, _) ← groups (7 - front.length) true
  return front ++ List.replicate (8 - front.length - back.length) 0 ++ back

/-! ## Addresses -/

/-- Reads a socket number behind a colon. -/
def socketPart : Reader Nat := do
  char ':'
  number 10 0xFFFF

/-- Reads the number of an interface behind a percent sign, if there is one. -/
def scopePart : Reader Nat :=
  (do char '%'; number 10 0xFFFFFFFF) <|> pure 0

/-- Reads four octets and a socket number. -/
def v4 : Reader Address := do
  let octets ← fourOctets
  return { host := .v4 octets, socket := ← socketPart }

/-- Reads eight groups between brackets, and a socket number. -/
def v6 : Reader Address := do
  char '['
  let groups ← eightGroups
  let scope ← scopePart
  char ']'
  return { host := .v6 groups, scope, socket := ← socketPart }

/-- The address that a text writes. -/
def parse? (s : String) : Option Address :=
  match (v4 <|> v6) s.toList with
  | some (a, []) => some a
  | _ => none

/-- What is wrong with a text that writes no address. -/
def syntaxFault : String := "invalid socket address syntax"

end Address

/-! ## Text -/

namespace Host

/-- The start and the length of a run of groups. -/
structure Run where
  start : Nat
  length : Nat
  deriving DecidableEq, Repr

/-- The first of the longest runs of zeros, where `current` is the run that ends at `index`. -/
def longestZeros (index : Nat) (current longest : Run) : List Nat → Run
  | [] => longest
  | g :: gs =>
    if g = 0 then
      let current : Run := ⟨if current.length = 0 then index else current.start, current.length + 1⟩
      longestZeros (index + 1) current (if longest.length < current.length then current else longest) gs
    else longestZeros (index + 1) ⟨0, 0⟩ longest gs

/-- Groups in hexadecimal with colons between them. -/
def groupText (gs : List Nat) : String :=
  ":".intercalate (gs.map fun g => String.ofList (Nat.toDigits 16 g))

/-- Octets in decimal with points between them. -/
def octetText (o : Octets) : String := ".".intercalate (o.map fun b => toString b.toNat)

/-- The text of a host. -/
def text : Host → String
  | v4 octets => octetText octets
  | v6 [0, 0, 0, 0, 0, 0xFFFF, a, b] => "::ffff:" ++ octetText (Octets.bigEndian 2 a ++ Octets.bigEndian 2 b)
  | v6 groups =>
    let zeros := longestZeros 0 ⟨0, 0⟩ ⟨0, 0⟩ groups
    if zeros.length ≤ 1 then groupText groups
    else groupText (groups.take zeros.start) ++ "::" ++ groupText (groups.drop (zeros.start + zeros.length))

/-! ## Hosts of every machine -/

/-- Whether four octets stand for any machine or for itself, or for all machines of a group. -/
def isCommonV4 : Octets → Bool
  | [a, b, c, d] => a = 127 || (224 ≤ a && a < 240) || [a, b, c, d] ∈ [[0, 0, 0, 0], [255, 255, 255, 255]]
  | _ => false

/-- Whether a machine may listen as a host whatever addresses it was given. -/
def isCommon : Host → Bool
  | v4 octets => isCommonV4 octets
  | v6 [0, 0, 0, 0, 0, 0xFFFF, a, b] => isCommonV4 (Octets.bigEndian 2 a ++ Octets.bigEndian 2 b)
  | v6 groups => groups.head?.any (0xFF00 ≤ ·) || groups ∈ [List.replicate 8 0, List.replicate 7 0 ++ [1]]

end Host

end CoinRelay
