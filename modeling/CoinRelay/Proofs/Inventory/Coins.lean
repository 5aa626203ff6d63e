import CoinRelay.Proofs.Inventory.Refinement
import Mathlib.Data.Multiset.Filter

/-!
# The coins of a cache

Which coins a cache holds, whatever their order (`Cache.coins`). Coins come into a consistent cache by `store` alone,
and whatever makes room for them only takes some out:

- `Consistent.store`: at most the new coin is added;
- `Consistent.bestOrWeaker`: a choice is a coin of the owner and takes out none;
- `Consistent.evict`, `Consistent.purge`, `Consistent.discard`: none is added;
- `Consistent.discard_of_mem`: a coin that is discarded is gone.
-/

namespace CoinRelay

/-- The coins of a cache. -/
def Cache.coins (c : Cache) : Multiset Coin := (c.entries.toList.map (·.2.coin) : List Coin)

/-- The coins of a cache are those of the list it represents. -/
theorem Represents.coins_eq {c : Cache} {l : RecencyList} (h : Represents c l) : c.coins = (l.coins : Multiset Coin) := by
  have hslots : (c.entries.toList.map (·.2.coin)).map (·.slot) = c.entries.toList.map (·.1) := by
    rw [List.map_map]
    apply List.map_congr_left
    intro p hp
    exact (h.of_entry (Std.ExtTreeMap.mem_toList_iff_getElem?_eq_some.1 hp)).2.1
  have hnd : (c.entries.toList.map (·.2.coin)).Nodup := by
    apply List.Nodup.of_map (·.slot)
    rw [hslots, Std.ExtTreeMap.map_fst_toList_eq_keys]
    exact c.entries.nodup_keys
  refine Multiset.coe_eq_coe.2 ((List.perm_ext_iff_of_nodup hnd h.coins_nodup).2 ?_)
  intro coin
  simp only [List.mem_map, Prod.exists, Std.ExtTreeMap.mem_toList_iff_getElem?_eq_some]
  constructor
  · rintro ⟨slot, e, he, rfl⟩
    exact (h.of_entry he).1
  · intro hc
    obtain ⟨tick, he, -⟩ := h.entry coin hc
    exact ⟨coin.slot, _, he, rfl⟩

namespace Cache

variable {c : Cache}

/-- The two indexes of a cache hold the same coins. -/
def Consistent (c : Cache) : Prop := ∃ l, Represents c l

namespace Consistent

theorem empty (ceiling : Nat) : ({ ceiling } : Cache).Consistent := ⟨_, .empty ceiling⟩

/-- What happens to the list happens to the coins. -/
theorem of_sublist {c' : Cache} {l l' : RecencyList} (h : Represents c l) (h' : Represents c' l')
    (hsub : l'.coins.Subperm l.coins) : c'.Consistent ∧ c'.coins ≤ c.coins := by
  refine ⟨⟨l', h'⟩, ?_⟩
  rw [h.coins_eq, h'.coins_eq]
  exact Multiset.coe_le.2 hsub

/-- **Storing** adds at most the coin. -/
theorem store (h : c.Consistent) (coin : Coin) :
    (c.store coin).2.Consistent ∧ (c.store coin).2.coins ≤ coin ::ₘ c.coins := by
  obtain ⟨l, h⟩ := h
  have h' := (h.store coin).2
  refine ⟨⟨_, h'⟩, ?_⟩
  rw [h.coins_eq, h'.coins_eq, Multiset.cons_coe, Multiset.coe_le]
  cases hf : l.coins.find? (·.slot = coin.slot) with
  | some kept =>
    rw [RecencyList.store_of_listed hf]
    have hperm : (l.use kept).coins.Perm l.coins := RecencyList.perm_use (List.mem_of_find?_eq_some hf)
    exact hperm.subperm.trans (List.sublist_cons_self coin l.coins).subperm
  | none =>
    rw [RecencyList.store_of_new hf]
    exact (List.drop_sublist _ _).subperm.trans (List.perm_append_singleton coin l.coins).subperm

/-- **A choice** is a coin of the owner; no coin comes or goes. -/
theorem of_choose {c' : Cache} {l : RecencyList} {coins : List Coin} {choice : Option Coin} (h : Represents c l)
    (h' : Represents c' (l.choose choice).2) (hchoice : ∀ coin ∈ choice, coin ∈ coins) (hsub : coins ⊆ l.coins) :
    c'.Consistent ∧ c'.coins = c.coins := by
  refine ⟨⟨_, h'⟩, ?_⟩
  rw [h.coins_eq, h'.coins_eq, Multiset.coe_eq_coe]
  apply RecencyList.perm_choose
  intro coin hc
  exact hsub (hchoice coin hc)

/-- **The choice** of a tier or weaker is a coin of the owner; no coin comes or goes. -/
theorem bestOrWeaker (h : c.Consistent) (owner : String) (tier : Tier) :
    (∀ coin, (c.bestOrWeaker? owner tier).1 = some coin → coin ∈ c.coins ∧ coin.owner = owner) ∧
      (c.bestOrWeaker? owner tier).2.Consistent ∧ (c.bestOrWeaker? owner tier).2.coins = c.coins := by
  obtain ⟨l, h⟩ := h
  obtain ⟨hcoin, h'⟩ := h.bestOrWeaker? owner tier
  have hmem : ∀ coin ∈ (l.bestOrWeaker? owner tier).1, coin ∈ l.coins.filter fun c =>
      c.owner = owner ∧ tier.rank ≤ c.tier.rank := fun coin hc => List.argmin_mem hc
  refine ⟨fun coin hc => ?_, of_choose h h' hmem List.filter_sublist.subset⟩
  obtain ⟨hin, hown⟩ := List.mem_filter.1 (hmem coin (hcoin ▸ hc))
  rw [h.coins_eq]
  exact ⟨hin, (of_decide_eq_true hown).1⟩

/-- **Evicting** adds no coin. -/
theorem evict (h : c.Consistent) : c.evict.2.Consistent ∧ c.evict.2.coins ≤ c.coins := by
  obtain ⟨l, h⟩ := h
  exact of_sublist h h.evict.2 (List.drop_sublist _ _).subperm

/-- **Purging** adds no coin. -/
theorem purge (h : c.Consistent) (owner : String) :
    (c.purge owner).2.Consistent ∧ (c.purge owner).2.coins ≤ c.coins := by
  obtain ⟨l, h⟩ := h
  exact of_sublist h (h.purge owner).2 List.filter_sublist.subperm

/-- **Discarding** adds no coin. -/
theorem discard (h : c.Consistent) (owner : String) (keyId : KeyId) :
    (c.discard owner keyId).2.Consistent ∧ (c.discard owner keyId).2.coins ≤ c.coins := by
  obtain ⟨l, h⟩ := h
  exact of_sublist h (h.discard owner keyId).2 List.filter_sublist.subperm

/-- **A coin that is discarded** is gone. -/
theorem discard_of_mem (h : c.Consistent) {coin : Coin} (hc : coin ∈ c.coins) :
    (c.discard coin.owner coin.keyId).2.Consistent ∧
      coin ::ₘ (c.discard coin.owner coin.keyId).2.coins ≤ c.coins := by
  obtain ⟨l, h⟩ := h
  have h' := (h.discard coin.owner coin.keyId).2
  rw [h.coins_eq, Multiset.mem_coe] at hc
  refine ⟨⟨_, h'⟩, ?_⟩
  rw [h.coins_eq, h'.coins_eq, Multiset.cons_coe, Multiset.coe_le]
  refine List.cons_subperm_of_not_mem_of_mem (fun hin => ?_) hc List.filter_sublist.subperm
  simpa using (List.mem_filter.1 hin).2

end Consistent

end Cache

end CoinRelay
