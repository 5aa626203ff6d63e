import CoinRelay.Cbor.Head

/-!
# Texts and numbers

- `readText`: a text, whole or in chunks each of which is UTF-8 by itself, open texts inside open texts included;
- `readNatural`: a number that is not negative, plain or as a big number of at most sixteen octets after its zeros;
- `readKey`: a map key, a short text or octet string that comes whole;
- `writeText`, `writeNatural`: their shortest forms.
-/

namespace CoinRelay.Cbor

/-! ## Writing -/

/-- A number below `2 ^ 64`. -/
def writeNatural (n : Nat) : Octets := Head.write 0 n

/-- A text in one piece. -/
def writeText (s : String) : Octets := Head.write 3 s.utf8ByteSize ++ Octets.ofText s

/-! ## Strings -/

/-- The two kinds of string. -/
inductive StringKind
  | octets
  | text
  deriving DecidableEq, Repr

/-- The length in the head of a string of the kind; the outer option tells the kind, the inner one an open length. -/
def StringKind.length? : StringKind → Head → Option (Option Nat)
  | octets, .octets n => some n
  | text, .text n => some n
  | _, _ => none

/-- Reads `n` octets. -/
def take (n : Nat) {s : Octets} (r : Rest s) : Except Fault (Octets × Rest s) :=
  match h : r.1.split? n with
  | none => .error .malformed
  | some (front, rest) => .ok (front, r.cut ⟨rest, Octets.length_of_split? h⟩)

/-- Reads the chunks of an open string, those read so far in reverse, until `depth + 1` open strings have stopped. -/
def chunksFrom (kind : StringKind) (depth : Nat) (read : List Octets) {s : Octets} (r : Rest s) :
    Except Fault (List Octets × Rest s) :=
  match Head.read r.1 with
  | .error e => .error e
  | .ok (.stop, q) =>
    match depth with
    | 0 => .ok (read.reverse, r.trans q)
    | depth + 1 => chunksFrom kind depth read (r.trans q)
  | .ok (head, q) =>
    match kind.length? head with
    | none => .error .malformed
    | some none => chunksFrom kind (depth + 1) read (r.trans q)
    | some (some n) =>
      match take n q with
      | .error e => .error e
      | .ok (chunk, q) => chunksFrom kind depth (chunk :: read) (r.trans q)
termination_by r.1.length
decreasing_by all_goals exact q.2

/-- The chunks of a string whose head announced a length, or none. -/
def chunks (kind : StringKind) (length : Option Nat) {s : Octets} (r : Rest s) :
    Except Fault (List Octets × Rest s) :=
  match length with
  | none => chunksFrom kind 0 [] r
  | some n =>
    match take n r with
    | .error e => .error e
    | .ok (chunk, q) => .ok ([chunk], q)

/-- The text that chunks spell, each by itself. -/
def textOf? (chunks : List Octets) : Option String :=
  (chunks.mapM Octets.text?).map String.join

/-- Reads a text whose head was read. -/
def textAfter (length : Option Nat) {s : Octets} (r : Rest s) : Except Fault (String × Rest s) :=
  match chunks .text length r with
  | .error e => .error e
  | .ok (cs, q) =>
    match textOf? cs with
    | none => .error .malformed
    | some text => .ok (text, q)

/-- Reads a text. -/
def readText : Reader String := fun s =>
  match Head.untagged s with
  | .error e => .error e
  | .ok (.text length, r) => textAfter length r
  | .ok _ => .error .malformed

/-! ## Map keys -/

/-- The longest map key, in octets. -/
def maxKeyLength : Nat := 4096

/-- Reads a map key and gives its octets. -/
def readKey : Reader Octets := fun s =>
  match Head.untagged s with
  | .error e => .error e
  | .ok (.text (some n), r) =>
    if n ≤ maxKeyLength then
      match take n r with
      | .error e => .error e
      | .ok (key, q) => if key.text?.isSome then .ok (key, q) else .error .malformed
    else .error .malformed
  | .ok (.octets (some n), r) => if n ≤ maxKeyLength then take n r else .error .malformed
  | .ok _ => .error .malformed

/-! ## Numbers -/

/-- The tag of a big number that is not negative. -/
def bigNatural : Nat := 2

/-- The tag of a negative big number. -/
def bigNegative : Nat := 3

/-- The most octets that a big number has after its leading zeros. -/
def maxBigOctets : Nat := 16

/-- Reads the octet string of a big number. -/
def readBigOctets : Reader Nat := fun s =>
  match Head.read s with
  | .error e => .error e
  | .ok (.octets length, r) =>
    match chunks .octets length r with
    | .error e => .error e
    | .ok (cs, q) =>
      let digits : Octets := cs.flatten.dropWhile (· == 0)
      if digits.length ≤ maxBigOctets then .ok (digits.number, q) else .error .malformed
  | .ok _ => .error .malformed

/-- Reads a number that is not negative. -/
def readNatural : Reader Nat := fun s =>
  match Head.past (fun n => n ≠ bigNatural && n ≠ bigNegative) s with
  | .error e => .error e
  | .ok (.natural n, r) => .ok (n, r)
  | .ok (.tag n, r) =>
    if n = bigNatural then
      match readBigOctets r.1 with
      | .error e => .error e
      | .ok (n, q) => .ok (n, r.trans q)
    else .error .malformed
  | .ok _ => .error .malformed

end CoinRelay.Cbor
