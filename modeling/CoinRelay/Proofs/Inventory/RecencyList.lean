import CoinRelay.Inventory.Basic
import Mathlib.Algebra.Order.Ring.Nat
import Mathlib.Data.List.MinMax
import Mathlib.Data.Nat.Find
import Mathlib.Data.Prod.Lex

/-!
# Recency lists

What a cache of coins is meant to be: a list of coins, from the least to the most recently used.

- `RecencyList.store`: a coin that is listed is moved to the end, another is put there and pushes out as many of the
  first as it takes to fit (`RecencyList.excess`);
- `RecencyList.best?`, `RecencyList.bestOrWeaker?`: the least coin of an owner by identifier, or by tier and identifier;
- `RecencyList.number`, `RecencyList.held?`: how many coins of an owner are listed;
- `RecencyList.discard`, `RecencyList.purge`, `RecencyList.evict`: what leaves the list;
- `RecencyList.room_cons`, `RecencyList.room_eq_sum`: the room of the list in the footprints that a cache keeps.
-/

namespace CoinRelay

/-- Coins from the least to the most recently used, the room for them, and how many were pushed out. -/
structure RecencyList where
  ceiling : Nat
  coins : List Coin := []
  evicted : Nat := 0

/-- The outcome of storing a coin that pushed out a number of others. -/
def CacheOutcome.ofDropped : Nat → CacheOutcome
  | 0 => inserted
  | n + 1 => insertedWithEviction (n + 1)

namespace RecencyList

/-! ## Room -/

/-- The room that coins take: the octets of their owners, public keys and signatures, and 64 for each coin. -/
def room : List Coin → Nat
  | [] => 0
  | coin :: coins =>
    coin.owner.utf8ByteSize + coin.publicKey.utf8ByteSize + coin.signature.utf8ByteSize + 64 + room coins

theorem exists_fits (ceiling : Nat) (coins : List Coin) : ∃ n, room (coins.drop n) ≤ ceiling :=
  ⟨coins.length, by rw [List.drop_length]; exact Nat.zero_le _⟩

/-- The length of the shortest prefix without which coins fit. -/
def excess (ceiling : Nat) (coins : List Coin) : Nat := Nat.find (exists_fits ceiling coins)

/-- Drops the shortest prefix without which the coins fit; gives its length. -/
def evict (l : RecencyList) : Nat × RecencyList :=
  let n := excess l.ceiling l.coins
  (n, { l with coins := l.coins.drop n, evicted := l.evicted + n })

/-! ## Use -/

/-- Moves a coin to the end. -/
def use (coin : Coin) (l : RecencyList) : RecencyList := { l with coins := l.coins.erase coin ++ [coin] }

/-- Puts a coin at the end. -/
def append (coin : Coin) (l : RecencyList) : RecencyList := { l with coins := l.coins ++ [coin] }

/-- Keeps a coin. One that is listed under its owner and identifier stays as it is and moves to the end. -/
def store (coin : Coin) (l : RecencyList) : CacheOutcome × RecencyList :=
  match l.coins.find? (·.slot = coin.slot) with
  | some kept => (.refreshed, l.use kept)
  | none =>
    match (l.append coin).evict with
    | (0, l) => (.inserted, l)
    | (n + 1, l) => (.insertedWithEviction (n + 1), l)

/-! ## Choice -/

/-- Moves a chosen coin to the end, if there is one. -/
def choose (choice : Option Coin) (l : RecencyList) : Option Coin × RecencyList :=
  (choice, choice.elim l l.use)

/-- The coin of an owner and a tier with the smallest identifier. -/
def best? (owner : String) (tier : Tier) (l : RecencyList) : Option Coin × RecencyList :=
  l.choose ((l.coins.filter fun c => c.owner = owner ∧ c.tier = tier).argmin fun c => c.keyId.word.toNat)

/-- The coin of an owner that comes first by tier and identifier among those of a tier or weaker. -/
def bestOrWeaker? (owner : String) (tier : Tier) (l : RecencyList) : Option Coin × RecencyList :=
  l.choose ((l.coins.filter fun c => c.owner = owner ∧ tier.rank ≤ c.tier.rank).argmin
    fun c => toLex (c.tier.rank, c.keyId.word.toNat))

/-- How many coins of an owner and a tier are listed. -/
def number (owner : String) (tier : Tier) (l : RecencyList) : Nat :=
  l.coins.countP fun c => c.owner = owner ∧ c.tier = tier

/-- The numbers of the coins of an owner, unless one of them passes 32 bits. -/
def held? (owner : String) (l : RecencyList) : Option Tier.Counts :=
  if l.number owner .gold < UInt32.size ∧ l.number owner .silver < UInt32.size ∧
      l.number owner .bronze < UInt32.size then
    some
      { gold := UInt32.ofNat (l.number owner .gold)
        silver := UInt32.ofNat (l.number owner .silver)
        bronze := UInt32.ofNat (l.number owner .bronze) }
  else none

/-! ## Removal -/

/-- Drops the coin of an owner and an identifier; says whether there was one. -/
def discard (owner : String) (keyId : KeyId) (l : RecencyList) : Bool × RecencyList :=
  (l.coins.any fun c => c.owner = owner ∧ c.keyId = keyId,
    { l with coins := l.coins.filter fun c => ¬ (c.owner = owner ∧ c.keyId = keyId) })

/-- Drops the coins of an owner; gives their number. -/
def purge (owner : String) (l : RecencyList) : Nat × RecencyList :=
  ((l.coins.filter fun c => c.owner = owner).length, { l with coins := l.coins.filter fun c => c.owner ≠ owner })

/-- The counters of an inventory with these coins and an empty vault. -/
def stats (l : RecencyList) : Inventory.Stats where
  cachedCoins := l.coins.length
  cacheBytes := room l.coins
  cacheCeiling := l.ceiling
  vaultEntries := 0
  burnedTotal := 0
  evictedTotal := l.evicted

/-! ## Coins that come and go -/

/-- A use moves a coin. -/
theorem perm_use {l : RecencyList} {coin : Coin} (hc : coin ∈ l.coins) : (l.use coin).coins.Perm l.coins :=
  (List.perm_append_singleton coin _).trans (List.perm_cons_erase hc).symm

/-- A choice moves a coin, if it is one that is listed. -/
theorem perm_choose {l : RecencyList} {choice : Option Coin} (hchoice : ∀ coin ∈ choice, coin ∈ l.coins) :
    (l.choose choice).2.coins.Perm l.coins := by
  cases choice with
  | none => exact .refl _
  | some coin => exact perm_use (hchoice coin rfl)

/-- A coin that is listed moves to the end. -/
theorem store_of_listed {l : RecencyList} {coin kept : Coin} (h : l.coins.find? (·.slot = coin.slot) = some kept) :
    l.store coin = (.refreshed, l.use kept) := by
  simp only [store, h]

/-- Another is put there, and what does not fit is pushed out. -/
theorem store_of_new {l : RecencyList} {coin : Coin} (h : l.coins.find? (·.slot = coin.slot) = none) :
    l.store coin = (.ofDropped (l.append coin).evict.1, (l.append coin).evict.2) := by
  simp only [store, h]
  cases (l.append coin).evict with
  | mk n l' => cases n <;> rfl

/-! ## The shortest prefix -/

/-- A coin takes the room that a cache keeps with it. -/
theorem room_cons (coin : Coin) (coins : List Coin) : room (coin :: coins) = coin.footprint + room coins := rfl

theorem room_eq_sum (coins : List Coin) : room coins = (coins.map Coin.footprint).sum := by
  induction coins with
  | nil => rfl
  | cons coin coins ih => rw [room_cons, ih, List.map_cons, List.sum_cons]

theorem room_append (coins others : List Coin) : room (coins ++ others) = room coins + room others := by
  simp only [room_eq_sum, List.map_append, List.sum_append]

theorem room_perm {coins others : List Coin} (h : coins.Perm others) : room coins = room others := by
  rw [room_eq_sum, room_eq_sum]
  exact (h.map _).sum_nat

/-- No coin takes less room than one without any texts. -/
theorem mul_length_le_room (coins : List Coin) : recordOverhead * coins.length ≤ room coins := by
  induction coins with
  | nil => exact Nat.zero_le _
  | cons coin coins ih =>
    have hcoin : recordOverhead ≤ coin.footprint := Nat.le_add_left _ _
    rw [room_cons, List.length_cons, Nat.mul_succ]
    omega

/-- Coins that fit push out none. -/
theorem excess_eq_zero {ceiling : Nat} {coins : List Coin} (h : room coins ≤ ceiling) : excess ceiling coins = 0 :=
  (Nat.find_eq_zero _).2 h

/-- Of coins that do not fit, the first is pushed out before the others are looked at. -/
theorem excess_cons {ceiling : Nat} {coin : Coin} {coins : List Coin} (h : ceiling < room (coin :: coins)) :
    excess ceiling (coin :: coins) = excess ceiling coins + 1 := by
  refine (Nat.find_eq_iff _).2 ⟨Nat.find_spec (exists_fits ceiling coins), ?_⟩
  intro n hn hfits
  cases n with
  | zero => exact absurd hfits (Nat.not_le.2 h)
  | succ n => exact Nat.find_min (exists_fits ceiling coins) (Nat.lt_of_succ_lt_succ hn) hfits

/-! ## Least coins -/

/-- A coin below all others is the least. -/
theorem argmin_eq_some_of_lt {β : Type} [LinearOrder β] {f : Coin → β} {coins : List Coin} {coin : Coin}
    (hc : coin ∈ coins) (hlt : ∀ other ∈ coins, other ≠ coin → f coin < f other) : coins.argmin f = some coin := by
  refine List.argmin_eq_some_iff.2 ⟨hc, fun other ho => ?_, fun other ho hle => ?_⟩
  · rcases eq_or_ne other coin with rfl | hne
    · exact le_refl _
    · exact le_of_lt (hlt other ho hne)
  · rcases eq_or_ne other coin with rfl | hne
    · exact Nat.le_refl _
    · exact absurd (hlt other ho hne) (not_lt_of_ge hle)

end RecencyList

end CoinRelay
