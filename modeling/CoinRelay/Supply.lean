import CoinRelay.Octets

/-!
# Supplies

An endless supply hands out its items one after the other. Random octets, nonces that a random source may fail to give,
and key pairs that may fail to generate all come from one, so that a run is a function of what it was supplied with.

- `Supply.next`, `Supply.draw`: one item, and the next `n` of them.
-/

namespace CoinRelay

/-- An endless sequence of items and how many of them are used up. -/
structure Supply (α : Type) where
  item : Nat → α
  used : Nat := 0

namespace Supply

variable {α : Type}

/-- The next item. -/
def next (s : Supply α) : α × Supply α :=
  (s.item s.used, { s with used := s.used + 1 })

/-- The next `n` items. -/
def draw (n : Nat) (s : Supply α) : List α × Supply α :=
  ((List.range n).map fun i => s.item (s.used + i), { s with used := s.used + n })

/-- The same item without end. -/
def constant (a : α) : Supply α := { item := fun _ => a }

/-- The octets counted up from zero, over and over. -/
def counting : Supply UInt8 := { item := UInt8.ofNat }

end Supply

end CoinRelay
