import CoinRelay.Proofs.Inventory.Calls
import CoinRelay.Proofs.Inventory.Coins

/-!
# The stock of a cache

How many coins of an owner and a tier a cache holds (`Cache.stock`), and which of its coins was used when
(`Cache.byRecency`).

- `Cache.stock_le`, `Cache.stock_pos`: the stock and the coins of a cache;
- `Cache.Consistent.get_held`, `Cache.Consistent.held?_eq`: the stock and the counts;
- `Cache.Consistent.coins_make_le`: no call but a store adds to it;
- `Represents.byRecency_eq`, `Cache.Consistent.represents`: the order of use is that of the list;
- `Represents.entries_purge`: a purge leaves the entries of other owners as they are.
-/

namespace CoinRelay

namespace Cache

variable {c c' : Cache}

/-- How many coins of an owner and a tier a cache holds. -/
def stock (owner : String) (tier : Tier) (c : Cache) : Nat :=
  c.coins.countP fun coin => coin.owner = owner ∧ coin.tier = tier

/-- The coins of a cache, the one that was not used for the longest first. -/
def byRecency (c : Cache) : List Coin := (c.recency.toList.map (·.2)).filterMap fun slot => c.entries[slot]?.map (·.coin)

/-- Fewer coins are a smaller stock. -/
theorem stock_le (h : c'.coins ≤ c.coins) (owner : String) (tier : Tier) : c'.stock owner tier ≤ c.stock owner tier :=
  Multiset.countP_le_of_le _ h

/-- A coin that is there counts. -/
theorem stock_pos {coin : Coin} (h : coin ∈ c.coins) : 0 < c.stock coin.owner coin.tier := by
  apply Multiset.countP_pos.2
  exact ⟨coin, h, rfl, rfl⟩

namespace Consistent

/-- An owner has as many entries of a tier as coins in stock. -/
theorem count_entriesOf (h : c.Consistent) (owner : String) (tier : Tier) :
    ((c.entriesOf owner).map (·.coin.tier)).count tier = c.stock owner tier := by
  obtain ⟨l, h⟩ := h
  rw [h.count_entriesOf, stock, h.coins_eq, Multiset.coe_countP]
  rfl

/-- **The counts** of an owner are the stock, as far as 32 bits go. -/
theorem get_held (h : c.Consistent) (owner : String) (tier : Tier) :
    (c.held owner).get tier = UInt32.ofNat (c.stock owner tier) := by
  rw [Cache.held, Tier.Counts.get_tally, h.count_entriesOf]

/-- They are exact unless the stock of a tier passes 32 bits: then nothing overflows when the coins are counted one at a
time. -/
theorem held?_eq (h : c.Consistent) {owner : String} (hfit : ∀ tier, c.stock owner tier < UInt32.size) :
    c.held? owner = some (c.held owner) := by
  refine Tier.Counts.tally?_eq_some_iff.2 ⟨fun tier => ?_, rfl⟩
  rw [h.count_entriesOf]
  exact hfit tier

/-- A store adds to the stock of the coin's owner alone. -/
theorem stock_store_le (h : c.Consistent) {coin : Coin} {other : String} (hne : other ≠ coin.owner) (tier : Tier) :
    (c.store coin).2.stock other tier ≤ c.stock other tier := by
  have hle := Multiset.countP_le_of_le (fun coin : Coin => coin.owner = other ∧ coin.tier = tier) (h.store coin).2
  rw [Multiset.countP_cons_of_neg _ (fun hown => hne hown.1.symm)] at hle
  exact hle

/-- A purge takes out all coins of the owner. -/
theorem ne_of_mem_purge (h : c.Consistent) {owner : String} {coin : Coin} (hc : coin ∈ (c.purge owner).2.coins) :
    coin.owner ≠ owner := by
  obtain ⟨l, h⟩ := h
  rw [(h.purge owner).2.coins_eq, Multiset.mem_coe] at hc
  exact of_decide_eq_true (List.mem_filter.1 hc).2

/-- **No call but a store** adds a coin. -/
theorem coins_make_le {i : Inventory} (h : i.cache.Consistent) {call : InventoryCall}
    (hcall : call.storesCoin = false) :
    (call.make i).2.cache.Consistent ∧ (call.make i).2.cache.coins ≤ i.cache.coins := by
  cases call with
  | vault call => exact ⟨h, le_rfl⟩
  | cache call =>
    cases call with
    | store coin => cases hcall
    | best owner tier =>
      obtain ⟨l, h⟩ := h
      have h' := (h.best? owner tier).2
      refine of_sublist h h' (RecencyList.perm_choose ?_).subperm
      intro coin hc
      exact (List.mem_filter.1 (List.argmin_mem hc)).1
    | bestOrWeaker owner tier =>
      obtain ⟨-, hnext, hcoins⟩ := h.bestOrWeaker owner tier
      exact ⟨hnext, hcoins.le⟩
    | discard owner keyId => exact h.discard owner keyId
    | evict => exact h.evict
    | purge owner => exact h.purge owner
    | held owner => exact ⟨h, le_rfl⟩

end Consistent

/-- Emptying a slot leaves the others. -/
theorem entries_remove {slot other : Slot} (hne : other ≠ slot) (c : Cache) :
    (c.remove slot).2.entries[other]? = c.entries[other]? := by
  unfold remove
  cases c.entries[slot]? with
  | none => rfl
  | some e =>
    simp only [Ordered.getElem?_erase_eq]
    rw [if_neg (Ne.symm hne)]

/-- Emptying slots leaves the others. -/
theorem entries_removeAll {slots : List Slot} {other : Slot} (hother : other ∉ slots) (c : Cache) :
    (c.removeAll slots).entries[other]? = c.entries[other]? := by
  induction slots generalizing c with
  | nil => rfl
  | cons slot slots ih =>
    obtain ⟨hne, hrest⟩ := not_or.1 (fun h => hother (List.mem_cons.2 h))
    exact (ih hrest _).trans (entries_remove hne c)

end Cache

namespace Represents

variable {c : Cache} {l : RecencyList}

/-- **The order of use** is that of the list. -/
theorem byRecency_eq (h : Represents c l) : c.byRecency = l.coins := by
  have hfind : ∀ coin ∈ l.coins, c.entries[coin.slot]?.map (·.coin) = some coin := by
    intro coin hc
    obtain ⟨tick, he, -⟩ := h.entry coin hc
    rw [he]
    rfl
  rw [Cache.byRecency, h.slots, List.filterMap_map]
  exact (List.filterMap_congr hfind).trans List.filterMap_some

/-- **A purge** leaves the entries of other owners. -/
theorem entries_purge (h : Represents c l) {owner : String} {slot : Slot} (hne : slot.owner ≠ owner) :
    (c.purge owner).2.entries[slot]? = c.entries[slot]? := by
  apply Cache.entries_removeAll
  intro hmem
  obtain ⟨e, he, rfl⟩ := List.mem_map.1 hmem
  exact hne (h.mem_coinsOf.1 (List.mem_map_of_mem he)).2

end Represents

namespace Cache.Consistent

variable {c : Cache}

/-- The list of a consistent cache is told by the order of use. -/
theorem represents (h : c.Consistent) :
    Represents c { ceiling := c.ceiling, coins := c.byRecency, evicted := c.evicted } := by
  obtain ⟨l, h⟩ := h
  rw [h.byRecency_eq, h.ceiling, h.evicted]
  exact h

theorem coins_eq (h : c.Consistent) : c.coins = c.byRecency := h.represents.coins_eq

end Cache.Consistent

end CoinRelay
