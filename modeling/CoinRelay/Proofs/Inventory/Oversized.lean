import CoinRelay.Proofs.Inventory.Indexes
import CoinRelay.Proofs.Inventory.Stock

/-!
# Coins beyond the ceiling

A coin that takes more room than a cache has is put in as the one used last, and the coins before it go first. So it
empties the cache: it evicts only itself from an empty cache, and from no other (`store_oversized`).

- `RecencyList.excess_oversized`: the shortest prefix that makes room is the whole list;
- `Represents.of_coins_nil`: the indexes of a cache without coins are empty.
-/

namespace CoinRelay

namespace RecencyList

/-- Coins behind which there is one that never fits are all pushed out, and it with them. -/
theorem excess_oversized {ceiling : Nat} {coin : Coin} (h : ceiling < coin.footprint) (coins : List Coin) :
    excess ceiling (coins ++ [coin]) = coins.length + 1 := by
  induction coins with
  | nil =>
    have hover : ceiling < room [coin] := h
    rw [List.nil_append, excess_cons hover, excess_eq_zero (Nat.zero_le ceiling)]
    rfl
  | cons other coins ih =>
    have hroom : room [coin] = coin.footprint := rfl
    have hover : ceiling < room (other :: (coins ++ [coin])) := by
      rw [room_cons, room_append, hroom]
      omega
    rw [List.cons_append, excess_cons hover, ih, List.length_cons]

/-- A new coin that never fits leaves nothing. -/
theorem store_oversized_list {l : RecencyList} {coin : Coin} (hnew : l.coins.find? (·.slot = coin.slot) = none)
    (h : l.ceiling < coin.footprint) :
    l.store coin =
      (.insertedWithEviction (l.coins.length + 1),
        { l with coins := [], evicted := l.evicted + (l.coins.length + 1) }) := by
  have hexcess := excess_oversized h l.coins
  have hlength : (l.coins ++ [coin]).length ≤ l.coins.length + 1 := by simp
  rw [store_of_new hnew]
  simp only [evict, append, hexcess, List.drop_eq_nil_of_le hlength]
  rfl

end RecencyList

/-- The indexes of a cache without coins are empty. -/
theorem Represents.of_coins_nil {c : Cache} {l : RecencyList} (h : Represents c l) (hnil : l.coins = []) :
    c.entries = ∅ ∧ c.recency = ∅ ∧ c.bytes = 0 := by
  have hentries := h.size_entries
  have hrecency := h.length_recency
  rw [hnil, List.length_nil] at hentries hrecency
  refine ⟨Std.ExtTreeMap.eq_empty_iff_size_eq_zero.2 hentries, Std.ExtTreeMap.eq_empty_iff_size_eq_zero.2 hrecency, ?_⟩
  rw [h.bytes, hnil]
  rfl

namespace Cache

/-- Storing a coin evicts it and no other. -/
structure EvictsItself (coin : Coin) (c : Cache) : Prop where
  outcome : (c.store coin).1 = .insertedWithEviction 1
  /-- The coins that were cached stay, in the order of their use. -/
  others : (c.store coin).2.byRecency = c.byRecency
  /-- The coin does not. -/
  itself : coin ∉ (c.store coin).2.coins

/-- Storing a coin evicts it and all others. -/
structure EvictsAll (coin : Coin) (c : Cache) : Prop where
  outcome : (c.store coin).1 = .insertedWithEviction (c.byRecency.length + 1)
  entries : (c.store coin).2.entries = ∅
  recency : (c.store coin).2.recency = ∅
  bytes : (c.store coin).2.bytes = 0
  ceiling : (c.store coin).2.ceiling = c.ceiling
  evicted : (c.store coin).2.evicted = c.evicted + (c.byRecency.length + 1)

theorem EvictsAll.byRecency_eq {c : Cache} {coin : Coin} (h : EvictsAll coin c) : (c.store coin).2.byRecency = [] := by
  rw [byRecency, h.recency]
  simp

/-- To evict all is to evict itself alone exactly if there was no other. -/
theorem EvictsAll.evictsItself_iff {c : Cache} {coin : Coin} (h : EvictsAll coin c) :
    EvictsItself coin c ↔ c.byRecency = [] := by
  constructor
  · intro hitself
    rw [← hitself.others, h.byRecency_eq]
  · intro hnil
    refine ⟨?_, h.byRecency_eq.trans hnil.symm, ?_⟩
    · rw [h.outcome, hnil]
      rfl
    · rw [coins, h.entries]
      simp

/-- **A coin that never fits** evicts all coins. -/
theorem Consistent.evictsAll {c : Cache} (h : c.Consistent) {coin : Coin} (hnew : c.entries[coin.slot]? = none)
    (hover : c.ceiling < coin.footprint) : EvictsAll coin c := by
  have hl := h.represents
  have hfind : c.byRecency.find? (·.slot = coin.slot) = none := by
    apply List.find?_eq_none.2
    intro other ho
    simpa using hl.entries_eq_none_iff.1 hnew other ho
  obtain ⟨houtcome, hrest⟩ := hl.store coin
  rw [RecencyList.store_oversized_list hfind hover] at houtcome hrest
  obtain ⟨hentries, hrecency, hbytes⟩ := hrest.of_coins_nil rfl
  exact ⟨houtcome, hentries, hrecency, hbytes, hrest.ceiling, hrest.evicted⟩

end Cache

/-- **A coin that never fits flushes the cache.** Whatever was done with an inventory before, storing a coin that is not
cached and takes more room than there is evicts every coin, the coin itself last; so it evicts itself alone exactly if
nothing was cached. The vault stays as it is. -/
theorem store_oversized (ceiling : Nat) (sealer : Crypto.Sealer) (made : List InventoryCall) (coin : Coin)
    (hnew : (transcript InventoryCall.make made (.empty ceiling sealer)).2.cache.entries[coin.slot]? = none)
    (hover : ceiling < coin.footprint) :
    let i : Inventory := (transcript InventoryCall.make made (.empty ceiling sealer)).2
    Cache.EvictsAll coin i.cache ∧ (Cache.EvictsItself coin i.cache ↔ i.cache.byRecency = []) ∧
      (i.onCache (·.store coin)).2.vault = i.vault := by
  intro i
  obtain ⟨l, hl, hceiling, -⟩ := Cache.Fitting.after_calls ceiling sealer made
  have hroom : i.cache.ceiling < coin.footprint := by
    rw [hl.ceiling, hceiling]
    exact hover
  have hall := Cache.Consistent.evictsAll ⟨l, hl⟩ hnew hroom
  exact ⟨hall, hall.evictsItself_iff, rfl⟩

/-- A coin of Bob's that fits into two hundred octets. -/
def modestCoin : Coin := { owner := "bob", keyId := ⟨1⟩, tier := .gold, publicKey := "ab", signature := "cd" }

/-- A coin of Mallory's that does not. -/
def bulkyCoin : Coin :=
  { owner := "mallory", keyId := ⟨2⟩, tier := .gold, publicKey := "ab", signature := String.ofList (List.replicate 200 'c') }

/-- An inventory that stored the first. -/
def modestInventory : Inventory :=
  (transcript InventoryCall.make [.cache (.store modestCoin)]
    (.empty 200 { key := [], nonces := .constant (.ok []) })).2

/-- The second coin evicts the first. -/
theorem store_oversized_bulky :
    modestInventory.cache.entries[bulkyCoin.slot]? = none ∧ 200 < bulkyCoin.footprint ∧
      Cache.EvictsAll bulkyCoin modestInventory.cache ∧
        (modestInventory.cache.store bulkyCoin).1 = .insertedWithEviction 2 := by
  have hnew : modestInventory.cache.entries[bulkyCoin.slot]? = none := by decide +kernel
  have hover : 200 < bulkyCoin.footprint := by decide +kernel
  have hcached : modestInventory.cache.byRecency = [modestCoin] := by decide +kernel
  have hall : Cache.EvictsAll bulkyCoin modestInventory.cache :=
    (store_oversized 200 { key := [], nonces := .constant (.ok []) } [.cache (.store modestCoin)] bulkyCoin hnew
      hover).1
  refine ⟨hnew, hover, hall, ?_⟩
  rw [hall.outcome, hcached]
  rfl

/-- It does not evict itself alone. -/
theorem not_evictsItself_bulky :
    modestInventory.cache.entries[bulkyCoin.slot]? = none ∧ modestInventory.cache.ceiling < bulkyCoin.footprint ∧
      ¬Cache.EvictsItself bulkyCoin modestInventory.cache := by
  have hnew : modestInventory.cache.entries[bulkyCoin.slot]? = none := by decide +kernel
  have hover : modestInventory.cache.ceiling < bulkyCoin.footprint := by decide +kernel
  have hcached : modestInventory.cache.byRecency = [modestCoin] := by decide +kernel
  have hconsistent : modestInventory.cache.Consistent := ((Cache.Consistent.empty 200).store modestCoin).1
  refine ⟨hnew, hover, ?_⟩
  rw [(hconsistent.evictsAll hnew hover).evictsItself_iff, hcached]
  exact List.cons_ne_nil modestCoin []

end CoinRelay
