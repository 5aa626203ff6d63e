import CoinRelay.Proofs.Inventory.Ordered
import CoinRelay.Proofs.Inventory.RecencyList
import Mathlib.Data.List.Nodup

/-!
# Caches and recency lists

`Represents c l` says that the two indexes of a cache hold the coins of a recency list: the slots by tick are those of
the list, in its order, and the entries by slot are its coins, each under the tick of its slot.

- `Represents.touch`, `Represents.insert`, `Represents.remove`, `Represents.dropOldest`: what changes the indexes;
- `Represents.evict`, `Represents.store`: the cache answers as the list does and keeps to it.
-/

namespace CoinRelay

open RecencyList

/-- A cache whose indexes hold the coins of a list. -/
structure Represents (c : Cache) (l : RecencyList) : Prop where
  ceiling : c.ceiling = l.ceiling
  evicted : c.evicted = l.evicted
  bytes : c.bytes = room l.coins
  slots : c.recency.toList.map (·.2) = l.coins.map (·.slot)
  nodup : (l.coins.map (·.slot)).Nodup
  tick_le : ∀ tick slot, c.recency[tick]? = some slot → tick ≤ c.tick
  entry : ∀ coin ∈ l.coins, ∃ tick, c.entries[coin.slot]? = some ⟨coin, coin.footprint, tick⟩ ∧
    c.recency[tick]? = some coin.slot
  listed : ∀ slot e, c.entries[slot]? = some e → ∃ coin ∈ l.coins, coin.slot = slot

namespace Represents

variable {c : Cache} {l : RecencyList}

/-! ## Entries and coins -/

/-- An empty cache holds the coins of an empty list. -/
theorem empty (ceiling : Nat) : Represents { ceiling } { ceiling } where
  ceiling := rfl
  evicted := rfl
  bytes := rfl
  slots := by simp
  nodup := List.nodup_nil
  tick_le tick slot h := by simp at h
  entry coin h := by cases h
  listed slot e h := by simp at h

/-- Two coins of the list in one slot are the same. -/
theorem eq_of_slot_eq (h : Represents c l) {coin other : Coin} (hc : coin ∈ l.coins) (ho : other ∈ l.coins)
    (hs : coin.slot = other.slot) : coin = other :=
  List.inj_on_of_nodup_map h.nodup hc ho hs

/-- The coin in a slot is found by the slot. -/
theorem find?_slot (h : Represents c l) {coin : Coin} (hc : coin ∈ l.coins) {slot : Slot} (hs : coin.slot = slot) :
    l.coins.find? (·.slot = slot) = some coin := by
  cases hf : l.coins.find? (·.slot = slot) with
  | none => exact absurd hs (by simpa using List.find?_eq_none.1 hf coin hc)
  | some other =>
    have hslot : other.slot = slot := by simpa using List.find?_some hf
    rw [h.eq_of_slot_eq (List.mem_of_find?_eq_some hf) hc (hslot.trans hs.symm)]

theorem coins_nodup (h : Represents c l) : l.coins.Nodup := h.nodup.of_map _

/-- An entry is that of a coin of the list, under its tick. -/
theorem of_entry (h : Represents c l) {slot : Slot} {e : CacheEntry} (he : c.entries[slot]? = some e) :
    e.coin ∈ l.coins ∧ e.coin.slot = slot ∧ e.footprint = e.coin.footprint ∧ c.recency[e.touched]? = some slot := by
  obtain ⟨coin, hc, rfl⟩ := h.listed slot e he
  obtain ⟨tick, he', htick⟩ := h.entry coin hc
  cases he.symm.trans he'
  exact ⟨hc, rfl, rfl, htick⟩

/-- A slot without an entry is that of no coin. -/
theorem entries_eq_none_iff (h : Represents c l) {slot : Slot} :
    c.entries[slot]? = none ↔ ∀ coin ∈ l.coins, coin.slot ≠ slot := by
  constructor
  · rintro hnone coin hc rfl
    obtain ⟨tick, he, -⟩ := h.entry coin hc
    rw [hnone] at he
    cases he
  · intro hall
    cases he : c.entries[slot]? with
    | none => rfl
    | some e =>
      obtain ⟨hc, hs, -⟩ := h.of_entry he
      exact absurd hs (hall _ hc)

/-- The number under which a slot was last used is the only one. -/
theorem tick_unique (h : Represents c l) {slot : Slot} {t u : Nat} (ht : c.recency[t]? = some slot)
    (hu : c.recency[u]? = some slot) : t = u := by
  have hnd : (c.recency.toList.map (·.2)).Nodup := h.slots ▸ h.nodup
  have hp := Std.ExtTreeMap.mem_toList_iff_getElem?_eq_some.2 ht
  have hq := Std.ExtTreeMap.mem_toList_iff_getElem?_eq_some.2 hu
  exact congrArg Prod.fst (List.inj_on_of_nodup_map hnd hp hq rfl)

/-! ## Use -/

/-- The slots that are left when one is taken out are those of the other coins. -/
theorem slots_erase (h : Represents c l) {coin : Coin} (hc : coin ∈ l.coins) {tick : Nat}
    (ht : c.recency[tick]? = some coin.slot) :
    (c.recency.erase tick).toList.map (·.2) = (l.coins.erase coin).map (·.slot) := by
  have hticks : ∀ p ∈ c.recency.toList, decide (p.1 ≠ tick) = decide (p.2 ≠ coin.slot) := by
    rintro ⟨t, slot⟩ hp
    rw [Std.ExtTreeMap.mem_toList_iff_getElem?_eq_some] at hp
    rw [decide_eq_decide]
    refine not_congr ⟨?_, ?_⟩
    · rintro rfl
      exact Option.some.inj (hp.symm.trans ht)
    · rintro rfl
      exact h.tick_unique hp ht
  have hcoins : ∀ other ∈ l.coins, (other != coin) = decide (other.slot ≠ coin.slot) := by
    intro other ho
    rw [Bool.eq_iff_iff, bne_iff_ne, decide_eq_true_iff]
    exact not_congr ⟨fun heq => heq ▸ rfl, h.eq_of_slot_eq ho hc⟩
  calc (c.recency.erase tick).toList.map (·.2)
      = (c.recency.toList.filter (fun p => p.1 ≠ tick)).map (·.2) := by rw [Ordered.toList_erase]
    _ = (c.recency.toList.map (·.2)).filter (· ≠ coin.slot) := by
      rw [List.filter_congr hticks, List.filter_map]
      rfl
    _ = (l.coins.map (·.slot)).filter (· ≠ coin.slot) := by rw [h.slots]
    _ = (l.coins.erase coin).map (·.slot) := by
      rw [h.coins_nodup.erase_eq_filter, List.filter_congr hcoins, List.filter_map]
      rfl

theorem mem_erase_iff (h : Represents c l) {coin other : Coin} :
    other ∈ l.coins.erase coin ↔ other ∈ l.coins ∧ other ≠ coin := by
  rw [h.coins_nodup.mem_erase_iff, and_comm]

/-- A coin in another slot is another coin, and the other way round. -/
theorem slot_ne (h : Represents c l) {coin other : Coin} (hc : coin ∈ l.coins) (ho : other ∈ l.coins)
    (hne : other ≠ coin) : other.slot ≠ coin.slot := fun hs => hne (h.eq_of_slot_eq ho hc hs)

/-- **A use** moves the coin to the end. -/
theorem touch (h : Represents c l) {coin : Coin} (hc : coin ∈ l.coins) :
    Represents (c.touch coin.slot) (l.use coin) := by
  obtain ⟨tick, he, ht⟩ := h.entry coin hc
  have hperm : (l.coins.erase coin ++ [coin]).Perm l.coins := perm_use hc
  have htouch : c.touch coin.slot =
      { c with
        tick := c.tick + 1
        recency := (c.recency.erase tick).insert (c.tick + 1) coin.slot
        entries := c.entries.insert coin.slot ⟨coin, coin.footprint, c.tick + 1⟩ } := by
    simp only [Cache.touch, he]
  have hlt : ∀ t slot, (c.recency.erase tick)[t]? = some slot → t < c.tick + 1 := by
    intro t slot hs
    rw [Ordered.getElem?_erase_eq] at hs
    split at hs
    · cases hs
    · exact Nat.lt_succ_of_le (h.tick_le t slot hs)
  rw [htouch, use]
  constructor
  · exact h.ceiling
  · exact h.evicted
  · exact h.bytes.trans (room_perm hperm).symm
  · show ((c.recency.erase tick).insert (c.tick + 1) coin.slot).toList.map (·.2) = _
    rw [Ordered.toList_insert_of_lt hlt, List.map_append, List.map_append, h.slots_erase hc ht]
    rfl
  · exact (hperm.map _).nodup_iff.2 h.nodup
  · intro t slot hs
    rw [Ordered.getElem?_insert_eq] at hs
    split at hs
    · next ht => exact Nat.le_of_eq ht.symm
    · exact Nat.le_of_lt (hlt t slot hs)
  · intro other ho
    rcases eq_or_ne other coin with rfl | hne
    · exact ⟨c.tick + 1, by rw [Ordered.getElem?_insert_eq, if_pos rfl], by rw [Ordered.getElem?_insert_eq, if_pos rfl]⟩
    · have ho := hperm.mem_iff.1 ho
      have hs := h.slot_ne hc ho hne
      obtain ⟨u, hu, hut⟩ := h.entry other ho
      have htu : tick ≠ u := fun heq => hs (Option.some.inj (hut.symm.trans (heq ▸ ht)))
      have hle := h.tick_le u other.slot hut
      refine ⟨u, ?_, ?_⟩
      · rw [Ordered.getElem?_insert_eq, if_neg hs.symm, hu]
      · rw [Ordered.getElem?_insert_eq, if_neg (by omega), Ordered.getElem?_erase_eq, if_neg htu, hut]
  · intro slot e hs
    rw [Ordered.getElem?_insert_eq] at hs
    split at hs
    · next hslot => exact ⟨coin, hperm.mem_iff.2 hc, hslot⟩
    · obtain ⟨other, ho, hslot⟩ := h.listed slot e hs
      exact ⟨other, hperm.mem_iff.2 ho, hslot⟩

/-- **A coin in a slot of its own** is put at the end. -/
theorem insert (h : Represents c l) {coin : Coin} (hnew : c.entries[coin.slot]? = none) :
    Represents (c.insert coin) (l.append coin) := by
  have hfree := h.entries_eq_none_iff.1 hnew
  have hlt : ∀ t slot, c.recency[t]? = some slot → t < c.tick + 1 := fun t slot hs =>
    Nat.lt_succ_of_le (h.tick_le t slot hs)
  constructor
  · exact h.ceiling
  · exact h.evicted
  · show c.bytes + coin.footprint = room (l.coins ++ [coin])
    rw [room_append, h.bytes]
    rfl
  · show (c.recency.insert (c.tick + 1) coin.slot).toList.map (·.2) = (l.coins ++ [coin]).map (·.slot)
    rw [Ordered.toList_insert_of_lt hlt, List.map_append, List.map_append, h.slots]
    rfl
  · show ((l.coins ++ [coin]).map (·.slot)).Nodup
    rw [List.map_append]
    apply h.nodup.append (List.nodup_singleton _)
    intro slot hslot hs
    obtain ⟨other, ho, rfl⟩ := List.mem_map.1 hslot
    exact hfree other ho (List.mem_singleton.1 hs)
  · intro t slot hs
    rw [Cache.insert, Ordered.getElem?_insert_eq] at hs
    split at hs
    · next ht => exact Nat.le_of_eq ht.symm
    · exact Nat.le_of_lt (hlt t slot hs)
  · intro other ho
    simp only [Cache.insert, Ordered.getElem?_insert_eq]
    rcases List.mem_append.1 ho with ho | ho
    · obtain ⟨u, hu, hut⟩ := h.entry other ho
      have hle := h.tick_le u other.slot hut
      exact ⟨u, by rw [if_neg (hfree other ho).symm, hu], by rw [if_neg (by omega), hut]⟩
    · cases List.mem_singleton.1 ho
      exact ⟨c.tick + 1, if_pos rfl, if_pos rfl⟩
  · intro slot e hs
    rw [Cache.insert, Ordered.getElem?_insert_eq] at hs
    split at hs
    · next hslot => exact ⟨coin, List.mem_append_right _ (List.mem_singleton_self coin), hslot⟩
    · obtain ⟨other, ho, hslot⟩ := h.listed slot e hs
      exact ⟨other, List.mem_append_left _ ho, hslot⟩

/-! ## Removal -/

/-- What is left in a cache without a coin. -/
theorem without (h : Represents c l) {coin : Coin} (hc : coin ∈ l.coins) {tick : Nat}
    (ht : c.recency[tick]? = some coin.slot) :
    Represents
      { c with
        entries := c.entries.erase coin.slot
        recency := c.recency.erase tick
        bytes := c.bytes - coin.footprint }
      { l with coins := l.coins.erase coin } where
  ceiling := h.ceiling
  evicted := h.evicted
  bytes := by
    have hroom := room_perm (List.perm_cons_erase hc)
    rw [room_cons] at hroom
    show c.bytes - coin.footprint = room (l.coins.erase coin)
    rw [h.bytes]
    omega
  slots := h.slots_erase hc ht
  nodup := h.nodup.sublist ((List.erase_sublist).map _)
  tick_le t slot hs := by
    rw [Ordered.getElem?_erase_eq] at hs
    split at hs
    · cases hs
    · exact h.tick_le t slot hs
  entry other ho := by
    obtain ⟨ho, hne⟩ := h.mem_erase_iff.1 ho
    have hs := h.slot_ne hc ho hne
    obtain ⟨u, hu, hut⟩ := h.entry other ho
    have htu : tick ≠ u := fun heq => hs (Option.some.inj (hut.symm.trans (heq ▸ ht)))
    simp only [Ordered.getElem?_erase_eq]
    exact ⟨u, by rw [if_neg hs.symm, hu], by rw [if_neg htu, hut]⟩
  listed slot e hs := by
    rw [Ordered.getElem?_erase_eq] at hs
    split at hs
    · cases hs
    · next hslot =>
      obtain ⟨other, ho, rfl⟩ := h.listed slot e hs
      exact ⟨other, h.mem_erase_iff.2 ⟨ho, fun heq => hslot (heq ▸ rfl)⟩, rfl⟩

/-- **A removal** takes out the coin in the slot. -/
theorem remove (h : Represents c l) {coin : Coin} (hc : coin ∈ l.coins) :
    (c.remove coin.slot).1 = true ∧ Represents (c.remove coin.slot).2 { l with coins := l.coins.erase coin } := by
  obtain ⟨tick, he, ht⟩ := h.entry coin hc
  simp only [Cache.remove, he]
  exact ⟨trivial, h.without hc ht⟩

/-- The first coin is the one that was not used for the longest. -/
theorem oldest? (h : Represents c l) {coin : Coin} {rest : List Coin} (hl : l.coins = coin :: rest) :
    ∃ tick, c.oldest? = some (tick, coin.slot) ∧ c.recency[tick]? = some coin.slot ∧
      c.entries[coin.slot]? = some ⟨coin, coin.footprint, tick⟩ := by
  have hc : coin ∈ l.coins := hl ▸ List.mem_cons_self
  have hslots := h.slots
  rw [hl, List.map_cons] at hslots
  obtain ⟨⟨tick, slot⟩, ticks, hlist, hfirst, -⟩ := List.map_eq_cons_iff.1 hslots
  have ht : c.recency[tick]? = some coin.slot := by
    rw [← hfirst, ← Std.ExtTreeMap.mem_toList_iff_getElem?_eq_some, hlist]
    exact List.mem_cons_self
  obtain ⟨u, he, hu⟩ := h.entry coin hc
  refine ⟨tick, ?_, ht, ?_⟩
  · rw [Cache.oldest?, Ordered.minKey?_of_toList_cons hlist, Option.bind_some, ht]
    rfl
  · rw [he, h.tick_unique hu ht]

/-- Dropping the oldest drops the first coin. -/
theorem dropOldest (h : Represents c l) {coin : Coin} {rest : List Coin} (hl : l.coins = coin :: rest) :
    Represents c.dropOldest { l with coins := rest } := by
  have hc : coin ∈ l.coins := hl ▸ List.mem_cons_self
  obtain ⟨tick, hold, ht, he⟩ := h.oldest? hl
  have hdrop := h.without hc ht
  rw [hl, List.erase_cons_head] at hdrop
  simp only [Cache.dropOldest, hold, he]
  exact hdrop

/-- Coins that fit stay. -/
theorem of_fits (h : Represents c l) (hfits : room l.coins ≤ l.ceiling) :
    Represents c { l with coins := l.coins.drop (excess l.ceiling l.coins) } := by
  rw [excess_eq_zero hfits, List.drop_zero]
  exact h

/-- Dropping the oldest until the coins fit drops the shortest prefix without which they do. -/
theorem shrink {n : Nat} (h : Represents c l) (hn : l.coins.length ≤ n) :
    (c.shrink n).1 = excess l.ceiling l.coins ∧
      Represents (c.shrink n).2 { l with coins := l.coins.drop (excess l.ceiling l.coins) } := by
  induction n generalizing c l with
  | zero =>
    have hfits : room l.coins ≤ l.ceiling := by
      rw [List.eq_nil_of_length_eq_zero (Nat.le_zero.1 hn)]
      exact Nat.zero_le _
    exact ⟨(excess_eq_zero hfits).symm, h.of_fits hfits⟩
  | succ n ih =>
    unfold Cache.shrink
    rw [h.ceiling, h.bytes]
    split
    · next hover =>
      cases hl : l.coins with
      | nil =>
        rw [hl] at hover
        exact absurd hover (Nat.not_lt_zero _)
      | cons coin rest =>
        have hlen : rest.length ≤ n := by
          rw [hl, List.length_cons] at hn
          exact Nat.le_of_succ_le_succ hn
        obtain ⟨hcount, hrest⟩ := ih (h.dropOldest hl) hlen
        rw [excess_cons (hl ▸ hover)]
        exact ⟨congrArg (· + 1) hcount, hrest⟩
    · next hfits => exact ⟨(excess_eq_zero (Nat.not_lt.1 hfits)).symm, h.of_fits (Nat.not_lt.1 hfits)⟩

theorem length_recency (h : Represents c l) : c.recency.size = l.coins.length := by
  rw [← Std.ExtTreeMap.length_toList, ← List.length_map (f := (·.2)), h.slots, List.length_map]

/-- **Eviction** drops the shortest prefix without which the coins fit. -/
theorem evict (h : Represents c l) : c.evict.1 = l.evict.1 ∧ Represents c.evict.2 l.evict.2 := by
  obtain ⟨hcount, hrest⟩ := h.shrink (n := c.recency.size) (Nat.le_of_eq h.length_recency.symm)
  refine ⟨hcount, ?_⟩
  constructor
  · exact hrest.ceiling
  · show (c.shrink c.recency.size).2.evicted + (c.shrink c.recency.size).1 = l.evicted + excess l.ceiling l.coins
    rw [hcount, hrest.evicted]
  · exact hrest.bytes
  · exact hrest.slots
  · exact hrest.nodup
  · exact hrest.tick_le
  · exact hrest.entry
  · exact hrest.listed

end Represents

/-! ## Storing -/

namespace Cache

variable {c : Cache} {coin : Coin}

/-- A coin whose slot is taken counts as used. -/
theorem store_of_kept {e : CacheEntry} (h : c.entries[coin.slot]? = some e) :
    c.store coin = (.refreshed, c.touch coin.slot) := by
  simp only [store, h]

/-- Another is put into its slot, and what does not fit is evicted. -/
theorem store_of_free (h : c.entries[coin.slot]? = none) :
    c.store coin = (.ofDropped (c.insert coin).evict.1, (c.insert coin).evict.2) := by
  simp only [store, h]
  cases (c.insert coin).evict with
  | mk n c' => cases n <;> rfl

end Cache

/-- **Storing** a coin. -/
theorem Represents.store {c : Cache} {l : RecencyList} (h : Represents c l) (coin : Coin) :
    (c.store coin).1 = (l.store coin).1 ∧ Represents (c.store coin).2 (l.store coin).2 := by
  cases he : c.entries[coin.slot]? with
  | some e =>
    obtain ⟨hc, hs, -⟩ := h.of_entry he
    rw [Cache.store_of_kept he, store_of_listed (h.find?_slot hc hs)]
    exact ⟨rfl, hs ▸ h.touch hc⟩
  | none =>
    have hfind : l.coins.find? (·.slot = coin.slot) = none :=
      List.find?_eq_none.2 fun other ho => by simpa using h.entries_eq_none_iff.1 he other ho
    obtain ⟨hcount, hrest⟩ := (h.insert he).evict
    rw [Cache.store_of_free he, store_of_new hfind, hcount]
    exact ⟨rfl, hrest⟩

end CoinRelay
