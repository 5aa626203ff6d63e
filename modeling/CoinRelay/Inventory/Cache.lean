import CoinRelay.Coin

/-!
# The cache of public coins

Coins of others, kept until they are spent. Two indexes are kept in step: the entries by owner and identifier, and the
slots by the moment they were last used. When the coins take more room than the ceiling allows, those that were not
used for the longest go first.

- `Cache.store`: keeps a coin, or renews one that is kept already;
- `Cache.best?`, `Cache.bestOrWeaker?`: the coin of an owner to spend next, which counts as a use;
- `Cache.discard`, `Cache.purge`, `Cache.evict`: what leaves the cache.
-/

namespace CoinRelay

/-- The place of a coin in the cache. -/
structure Slot where
  owner : String
  keyId : KeyId
  deriving DecidableEq, Repr

namespace Slot

/-- Slots are ordered by owner, then by identifier. -/
def order : Slot → Slot → Ordering := compareLex (compareOn owner) (compareOn keyId)

instance : Ord Slot := ⟨order⟩

instance : Std.TransOrd Slot := inferInstanceAs (Std.TransCmp (compareLex (compareOn owner) (compareOn keyId)))

instance : Std.LawfulEqOrd Slot where
  eq_of_compare {a b} h := by
    obtain ⟨ho, hk⟩ := Ordering.then_eq_eq.1 h
    cases a
    cases b
    exact (Slot.mk.injEq ..).mpr ⟨Std.LawfulEqOrd.eq_of_compare ho, Std.LawfulEqOrd.eq_of_compare hk⟩

end Slot

/-- The slot of a coin. -/
def Coin.slot (c : Coin) : Slot := { owner := c.owner, keyId := c.keyId }

/-- What is added to the length of a coin's texts for its room in the cache. -/
def recordOverhead : Nat := 64

/-- The room that a coin takes. -/
def Coin.footprint (c : Coin) : Nat :=
  c.owner.utf8ByteSize + c.publicKey.utf8ByteSize + c.signature.utf8ByteSize + recordOverhead

/-- A coin in the cache. -/
structure CacheEntry where
  coin : Coin
  footprint : Nat
  touched : Nat
  deriving DecidableEq, Repr

/-- The coins kept, by slot and by the tick of their last use. -/
structure Cache where
  ceiling : Nat
  entries : Std.ExtTreeMap Slot CacheEntry := ∅
  recency : Std.ExtTreeMap Nat Slot := ∅
  bytes : Nat := 0
  tick : Nat := 0
  evicted : Nat := 0

/-- What storing a coin did. -/
inductive CacheOutcome
  | inserted
  | refreshed
  | insertedWithEviction (count : Nat)
  deriving DecidableEq, Repr

namespace Cache

/-! ## Room -/

/-- The slot that was not used for the longest, and its tick. -/
def oldest? (c : Cache) : Option (Nat × Slot) :=
  c.recency.minKey?.bind fun tick => c.recency[tick]?.map fun slot => (tick, slot)

/-- Drops the slot that was not used for the longest. -/
def dropOldest (c : Cache) : Cache :=
  match c.oldest? with
  | none => c
  | some (tick, slot) =>
    match c.entries[slot]? with
    | none => { c with recency := c.recency.erase tick }
    | some entry =>
      { c with
        recency := c.recency.erase tick
        entries := c.entries.erase slot
        bytes := c.bytes - entry.footprint }

/-- Drops the oldest slots, at most `n`, until the coins fit; gives the number dropped. -/
def shrink : (n : Nat) → Cache → Nat × Cache
  | 0, c => (0, c)
  | n + 1, c =>
    if c.ceiling < c.bytes then
      let (dropped, c) := shrink n c.dropOldest
      (dropped + 1, c)
    else (0, c)

/-- Drops the oldest coins until the rest fit; gives the number dropped. -/
def evict (c : Cache) : Nat × Cache :=
  let (dropped, c) := shrink c.recency.size c
  (dropped, { c with evicted := c.evicted + dropped })

/-! ## Use -/

/-- Counts a use of a slot. -/
def touch (slot : Slot) (c : Cache) : Cache :=
  let tick := c.tick + 1
  match c.entries[slot]? with
  | none => { c with tick }
  | some entry =>
    { c with
      tick
      recency := (c.recency.erase entry.touched).insert tick slot
      entries := c.entries.insert slot { entry with touched := tick } }

/-- Puts a coin into a slot of its own, as the one used last. -/
def insert (coin : Coin) (c : Cache) : Cache :=
  let tick := c.tick + 1
  { c with
    tick
    recency := c.recency.insert tick coin.slot
    entries := c.entries.insert coin.slot { coin, footprint := coin.footprint, touched := tick }
    bytes := c.bytes + coin.footprint }

/-- Keeps a coin. One that is kept already stays as it is and counts as used. -/
def store (coin : Coin) (c : Cache) : CacheOutcome × Cache :=
  match c.entries[coin.slot]? with
  | some _ => (.refreshed, c.touch coin.slot)
  | none =>
    match (c.insert coin).evict with
    | (0, c) => (.inserted, c)
    | (n + 1, c) => (.insertedWithEviction (n + 1), c)

/-! ## Choice -/

/-- The entries of an owner in the order of their identifiers. -/
def entriesOf (owner : String) (c : Cache) : List CacheEntry :=
  (c.entries.toList.filter fun (slot, _) => slot.owner = owner).map (·.2)

/-- The entry of an owner and a tier with the smallest identifier. -/
def firstOf? (owner : String) (tier : Tier) (c : Cache) : Option CacheEntry :=
  (c.entriesOf owner).find? (·.coin.tier = tier)

/-- The coin of an owner and a tier to spend next; it counts as used. -/
def best? (owner : String) (tier : Tier) (c : Cache) : Option Coin × Cache :=
  match c.firstOf? owner tier with
  | none => (none, c)
  | some entry => (some entry.coin, c.touch entry.coin.slot)

/-- The coin to spend next of the first of the tiers that has one. -/
def bestOf? (owner : String) : List Tier → Cache → Option Coin × Cache
  | [], c => (none, c)
  | tier :: tiers, c =>
    match c.best? owner tier with
    | (none, c) => bestOf? owner tiers c
    | found => found

/-- The coin of an owner to spend next, of a tier or else of the strongest below it. -/
def bestOrWeaker? (owner : String) (tier : Tier) (c : Cache) : Option Coin × Cache :=
  bestOf? owner tier.atOrBelow c

/-- Counts the coins of an owner, unless a count would pass 32 bits. -/
def held? (owner : String) (c : Cache) : Option Tier.Counts :=
  Tier.Counts.tally? ((c.entriesOf owner).map (·.coin.tier))

/-- How many coins of an owner are kept, where no count passes 32 bits. -/
def held (owner : String) (c : Cache) : Tier.Counts :=
  Tier.Counts.tally ((c.entriesOf owner).map (·.coin.tier))

/-! ## Removal -/

/-- Drops the coin in a slot; says whether there was one. -/
def remove (slot : Slot) (c : Cache) : Bool × Cache :=
  match c.entries[slot]? with
  | none => (false, c)
  | some entry =>
    (true,
      { c with
        entries := c.entries.erase slot
        recency := c.recency.erase entry.touched
        bytes := c.bytes - entry.footprint })

/-- Drops a coin that was spent. -/
def discard (owner : String) (keyId : KeyId) (c : Cache) : Bool × Cache :=
  c.remove { owner, keyId }

/-- Drops the coins of an owner; gives their number. -/
def purge (owner : String) (c : Cache) : Nat × Cache :=
  let slots := (c.entriesOf owner).map (·.coin.slot)
  (slots.length, slots.foldl (fun c slot => (c.remove slot).2) c)

end Cache

end CoinRelay
