import CoinRelay.Octets

/-!
# Reading items off octets

A reader takes one item off the front of a string of octets. It answers with what it read and with the octets that are
left, which come with the proof that they are fewer: every loop over a reader ends because its input runs out.

- `Reader.map`, `Reader.andThen`: a reader followed by a function or by another reader;
- `foldCount`, `foldUntil`: a number of items, or the items up to a closing mark, folded into a value.
-/

namespace CoinRelay.Cbor

/-- What is left of `s` once an item was read off it. -/
abbrev Rest (s : Octets) := { r : Octets // r.length < s.length }

/-- What is left of `s` once some items, maybe none, were read off it. -/
abbrev Tail (s : Octets) := { r : Octets // r.length ≤ s.length }

/-- What is left after one item and then another. -/
def Rest.trans {s : Octets} (r : Rest s) (q : Rest r.1) : Rest s :=
  ⟨q.1, Nat.lt_trans q.2 r.2⟩

/-- What is left after one item and then some more. -/
def Rest.cut {s : Octets} (r : Rest s) (q : Tail r.1) : Rest s :=
  ⟨q.1, Nat.lt_of_le_of_lt q.2 r.2⟩

/-- What is left after some items and then one more. -/
def Tail.step {s : Octets} (r : Tail s) (q : Rest r.1) : Tail s :=
  ⟨q.1, Nat.le_trans (Nat.le_of_lt q.2) r.2⟩

/-- What is left after some items and then one that must be there. -/
def Tail.item {s : Octets} (r : Tail s) (q : Rest r.1) : Rest s :=
  ⟨q.1, Nat.lt_of_lt_of_le q.2 r.2⟩

/-- All of `s`. -/
def Tail.whole (s : Octets) : Tail s := ⟨s, Nat.le_refl _⟩

/-- Why octets are refused: they are not an item of the kind asked for, or the item's value has no place there. -/
inductive Fault
  | malformed
  | refused (reason : String)
  deriving DecidableEq, Repr

/-- The text of a fault. -/
def Fault.message : Fault → String
  | malformed => "Syntax(malformed item)"
  | refused reason => "Semantic(None, \"" ++ reason ++ "\")"

/-- Takes an item off the front of octets. -/
abbrev Reader (α : Type) := (s : Octets) → Except Fault (α × Rest s)

variable {α β σ : Type}

/-- Changes what was read. -/
def Reader.map (f : α → β) (read : Reader α) : Reader β := fun s =>
  match read s with
  | .error e => .error e
  | .ok (a, r) => .ok (f a, r)

/-- Reads an item, then another that may depend on it. -/
def Reader.andThen (first : Reader α) (second : α → Reader β) : Reader β := fun s =>
  match first s with
  | .error e => .error e
  | .ok (a, r) =>
    match second a r.1 with
    | .error e => .error e
    | .ok (b, q) => .ok (b, r.trans q)

/-- Reads `n` items, each into the value made of those before it. -/
def foldCount (item : σ → Reader σ) {s : Octets} : Nat → σ → Tail s → Except Fault (σ × Tail s)
  | 0, state, r => .ok (state, r)
  | n + 1, state, r =>
    match item state r.1 with
    | .error e => .error e
    | .ok (state, q) => foldCount item n state (r.step q)

/-- Reads items until `mark` can be read instead, each into the value made of those before it. -/
def foldUntil (mark : Reader Bool) (item : σ → Reader σ) {s : Octets} (state : σ) (r : Tail s) :
    Except Fault (σ × Tail s) :=
  match mark r.1 with
  | .error e => .error e
  | .ok (true, q) => .ok (state, r.step q)
  | .ok (false, _) =>
    match item state r.1 with
    | .error e => .error e
    | .ok (state, q) => foldUntil mark item state (r.step q)
termination_by r.1.length
decreasing_by exact q.2

end CoinRelay.Cbor
