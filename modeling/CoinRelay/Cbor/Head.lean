import CoinRelay.Cbor.Reader

/-!
# Heads of items

Every item starts with a head: three bits of major type and an argument in the other five, or in the one, two, four or
eight octets that follow.

- `Head.write` writes an argument in the fewest octets;
- `Head.read` reads a head of any width; the additional values 28 to 30 are refused, and so is an open length where
  the major type has none;
- `Head.past`, `Head.untagged` read past the tags in front of an item;
- `foldItems` folds over the items that a head announced.
-/

namespace CoinRelay.Cbor

/-- The head of an item. A length of `none` leaves the item open: it goes on to the stop mark. -/
inductive Head
  | natural (n : Nat)
  | negative (n : Nat)
  | octets (length : Option Nat)
  | text (length : Option Nat)
  | list (length : Option Nat)
  | map (length : Option Nat)
  | tag (n : Nat)
  | simple (n : Nat)
  | float
  | stop
  deriving DecidableEq, Repr

namespace Head

/-! ## Writing -/

/-- The shortest head of a major type and an argument below `2 ^ 64`. -/
def write (major n : Nat) : Octets :=
  let initial (info : Nat) := UInt8.ofNat (major * 32 + info)
  if n < 24 then [initial n]
  else if n < UInt8.size then initial 24 :: Octets.bigEndian 1 n
  else if n < UInt16.size then initial 25 :: Octets.bigEndian 2 n
  else if n < UInt32.size then initial 26 :: Octets.bigEndian 4 n
  else initial 27 :: Octets.bigEndian 8 n

/-! ## Reading -/

/-- The head of a major type and an argument. No argument stands for an open length. -/
def ofArgument? (major : Nat) (argument : Option Nat) : Option Head :=
  match major, argument with
  | 0, some n => some (natural n)
  | 1, some n => some (negative n)
  | 2, n => some (octets n)
  | 3, n => some (text n)
  | 4, n => some (list n)
  | 5, n => some (map n)
  | 6, some n => some (tag n)
  | _, _ => none

/-- The head of major type seven whose additional value is `info` and whose argument is `n`. -/
def ofSimple (info n : Nat) : Head :=
  if info ≤ 24 then simple n else float

/-- The argument that an additional value announces: the value itself, or the octets that follow. -/
def argument (info : Nat) (s : Octets) : Except Fault (Nat × Tail s) :=
  if info < 24 then .ok (info, Tail.whole s)
  else if info < 28 then
    match h : s.split? (1 <<< (info - 24)) with
    | none => .error .malformed
    | some (front, rest) => .ok (front.number, ⟨rest, Octets.length_of_split? h⟩)
  else .error .malformed

/-- Reads a head. -/
def read : Reader Head
  | [] => .error .malformed
  | b :: s =>
    let major := b.toNat / 32
    let info := b.toNat % 32
    let rest (r : Tail s) : Rest (b :: s) := ⟨r.1, Nat.lt_succ_of_le r.2⟩
    if info = 31 then
      if major = 7 then .ok (stop, rest (Tail.whole s))
      else
        match ofArgument? major none with
        | none => .error .malformed
        | some head => .ok (head, rest (Tail.whole s))
    else
      match argument info s with
      | .error e => .error e
      | .ok (n, r) =>
        if major = 7 then .ok (ofSimple info n, rest r)
        else
          match ofArgument? major (some n) with
          | none => .error .malformed
          | some head => .ok (head, rest r)

/-- Reads the first head in what is left that is no tag of the class. -/
def pastFrom (skipped : Nat → Bool) {s : Octets} (r : Tail s) : Except Fault (Head × Rest s) :=
  match read r.1 with
  | .error e => .error e
  | .ok (.tag n, q) => if skipped n then pastFrom skipped (r.step q) else .ok (.tag n, r.item q)
  | .ok (head, q) => .ok (head, r.item q)
termination_by r.1.length
decreasing_by exact q.2

/-- Reads the first head that is no tag of the class. -/
def past (skipped : Nat → Bool) : Reader Head := fun s =>
  pastFrom skipped (Tail.whole s)

/-- Reads the first head that is no tag. -/
def untagged : Reader Head :=
  past fun _ => true

/-- Whether the next head is the stop mark. -/
def isStop : Reader Bool :=
  Reader.map (· == stop) read

end Head

/-- Folds over the items that a head announced: as many as it said, or all up to the stop mark. -/
def foldItems {σ : Type} (item : σ → Reader σ) (length : Option Nat) (state : σ) {s : Octets} (r : Rest s) :
    Except Fault (σ × Rest s) :=
  let items : Except Fault (σ × Tail r.1) :=
    match length with
    | some n => foldCount item n state (Tail.whole r.1)
    | none => foldUntil Head.isStop item state (Tail.whole r.1)
  match items with
  | .error e => .error e
  | .ok (state, q) => .ok (state, r.cut q)

end CoinRelay.Cbor
