import CoinRelay.Proofs.Inventory.Calls
import CoinRelay.Proofs.Inventory.Coins
import Mathlib.Algebra.Order.BigOperators.Group.List

/-!
# The indexes of a cache

The two indexes of a cache are inverse to each other, and its byte total is the room of its coins (`Cache.WellFormed`).
Both hold also while a coin was put in and nothing was pushed out for it yet, so that eviction finds an entry behind each
slot that it takes and stops once the rest fits (`Cache.Evicts`).

- `Represents.wellFormed`: a cache that holds the coins of a list is well-formed;
- `Represents.evicts`: eviction of a cache that holds the coins of a list;
- `Fits.onList`: every call on a list leaves coins that fit;
- `cache_sound`: what is known of the cache of an inventory, whatever was called on it.
-/

namespace CoinRelay

open RecencyList

/-! ## Well-formed caches -/

namespace Cache

/-- The entries by slot and the slots by tick are inverse to each other, and the byte total is their room. -/
structure WellFormed (c : Cache) : Prop where
  /-- Under the tick of an entry stands its slot. -/
  slot_of_entry : ∀ (slot : Slot) (e : CacheEntry), c.entries[slot]? = some e → c.recency[e.touched]? = some slot
  /-- In a slot that stands under a tick is an entry with the tick. -/
  entry_of_tick : ∀ (tick : Nat) (slot : Slot), c.recency[tick]? = some slot →
    ∃ e : CacheEntry, c.entries[slot]? = some e ∧ e.touched = tick
  /-- Entries have different ticks. -/
  touched_inj : ∀ (slot other : Slot) (e f : CacheEntry), c.entries[slot]? = some e → c.entries[other]? = some f →
    e.touched = f.touched → slot = other
  /-- No tick is to come. -/
  touched_le : ∀ (slot : Slot) (e : CacheEntry), c.entries[slot]? = some e → e.touched ≤ c.tick
  /-- A coin is in its own slot. -/
  slot_eq : ∀ (slot : Slot) (e : CacheEntry), c.entries[slot]? = some e →
    slot.owner = e.coin.owner ∧ slot.keyId = e.coin.keyId
  /-- The room of an entry is that of its coin. -/
  footprint_eq : ∀ (slot : Slot) (e : CacheEntry), c.entries[slot]? = some e → e.footprint = e.coin.footprint
  /-- The rooms add up. -/
  bytes_eq : c.bytes = (c.entries.toList.map (·.2.footprint)).sum

/-- The coins that do not fit are taken out, the one that was not used for the longest first. Each of them is found by
its tick and takes no more room than there is; when the rest fits, none is taken out any more. -/
inductive Evicts : Cache → List CacheEntry → Cache → Prop
  | fits {c : Cache} (hfits : c.bytes ≤ c.ceiling) : Evicts c [] c
  | take {c c' : Cache} {tick : Nat} {slot : Slot} {e : CacheEntry} {es : List CacheEntry}
      (hover : c.ceiling < c.bytes) (hold : c.oldest? = some (tick, slot)) (hentry : c.entries[slot]? = some e)
      (hroom : e.footprint ≤ c.bytes)
      (hrest : Evicts
        { c with
          recency := c.recency.erase tick
          entries := c.entries.erase slot
          bytes := c.bytes - e.footprint } es c') :
      Evicts c (e :: es) c'

/-- Nothing is dropped from coins that fit. -/
theorem shrink_of_fits {c : Cache} (h : c.bytes ≤ c.ceiling) (n : Nat) : c.shrink n = (0, c) := by
  cases n with
  | zero => rfl
  | succ n =>
    unfold shrink
    rw [if_neg (Nat.not_lt.2 h)]

namespace Evicts

variable {c c' : Cache} {es : List CacheEntry}

/-- What eviction leaves fits. -/
theorem bytes_le (h : Evicts c es c') : c'.bytes ≤ c'.ceiling := by
  induction h with
  | fits hfits => exact hfits
  | take hover hold hentry hroom hrest ih => exact ih

/-- Eviction changes neither the ceiling nor the number of coins evicted before. -/
theorem frame (h : Evicts c es c') : c'.ceiling = c.ceiling ∧ c'.evicted = c.evicted := by
  induction h with
  | fits hfits => exact ⟨rfl, rfl⟩
  | take hover hold hentry hroom hrest ih => exact ih

/-- As many entries are gone as were taken out. -/
theorem size (h : Evicts c es c') : c'.entries.size + es.length = c.entries.size := by
  induction h with
  | fits hfits => rfl
  | @take c c' tick slot e es hover hold hentry hroom hrest ih =>
    have hfound : c.entries.contains slot = true := by
      rw [Std.ExtTreeMap.contains_eq_isSome_getElem?, hentry]
      rfl
    have hpos : c.entries.size ≠ 0 := by
      intro hzero
      rw [← Std.ExtTreeMap.eq_empty_iff_size_eq_zero] at hzero
      simp [hzero] at hentry
    simp only [Std.ExtTreeMap.size_erase, hfound, if_true] at ih
    rw [List.length_cons]
    omega

end Evicts

end Cache

namespace Represents

variable {c : Cache} {l : RecencyList}

/-- The entries are those of the coins, in another order. -/
theorem map_coin_perm (h : Represents c l) : (c.entries.toList.map (·.2.coin)).Perm l.coins := by
  have hcoins := h.coins_eq
  unfold Cache.coins at hcoins
  exact Multiset.coe_eq_coe.1 hcoins

/-- No entry takes more room than all of them. -/
theorem footprint_le (h : Represents c l) {slot : Slot} {e : CacheEntry} (he : c.entries[slot]? = some e) :
    e.footprint ≤ c.bytes := by
  obtain ⟨hc, -, hroom, -⟩ := h.of_entry he
  have hsplit := room_perm (List.perm_cons_erase hc)
  rw [room_cons] at hsplit
  rw [h.bytes]
  omega

/-- **A cache that holds the coins of a list** is well-formed. -/
theorem wellFormed (h : Represents c l) : c.WellFormed := by
  constructor
  · intro slot e he
    exact (h.of_entry he).2.2.2
  · intro tick slot ht
    have hmem : slot ∈ l.coins.map (·.slot) := by
      rw [← h.slots]
      exact List.mem_map.2 ⟨(tick, slot), Std.ExtTreeMap.mem_toList_iff_getElem?_eq_some.2 ht, rfl⟩
    obtain ⟨coin, hc, rfl⟩ := List.mem_map.1 hmem
    obtain ⟨u, he, hu⟩ := h.entry coin hc
    exact ⟨_, he, h.tick_unique hu ht⟩
  · intro slot other e f he hf htick
    have hslot := (h.of_entry he).2.2.2
    rw [htick, (h.of_entry hf).2.2.2] at hslot
    exact (Option.some.inj hslot).symm
  · intro slot e he
    exact h.tick_le _ _ (h.of_entry he).2.2.2
  · intro slot e he
    obtain ⟨-, rfl, -⟩ := h.of_entry he
    exact ⟨rfl, rfl⟩
  · intro slot e he
    exact (h.of_entry he).2.2.1
  · have hfootprints : c.entries.toList.map (·.2.footprint) =
        (c.entries.toList.map (·.2.coin)).map Coin.footprint := by
      rw [List.map_map]
      apply List.map_congr_left
      intro p hp
      exact (h.of_entry (Std.ExtTreeMap.mem_toList_iff_getElem?_eq_some.1 hp)).2.2.1
    rw [hfootprints, h.bytes, ← room_eq_sum]
    exact (room_perm h.map_coin_perm).symm

/-- **Eviction** finds an entry behind each slot that it takes, and is done once the rest fits. -/
theorem evicts {n : Nat} (h : Represents c l) (hn : l.coins.length ≤ n) :
    ∃ es c', Cache.Evicts c es c' ∧ c.shrink n = (es.length, c') := by
  -- the number of coins bounds the rounds; each takes the first coin of the list
  induction n generalizing c l with
  | zero =>
    have hnil := List.eq_nil_of_length_eq_zero (Nat.le_zero.1 hn)
    have hfits : c.bytes ≤ c.ceiling := by
      rw [h.bytes, hnil]
      exact Nat.zero_le _
    exact ⟨[], c, .fits hfits, rfl⟩
  | succ n ih =>
    by_cases hover : c.ceiling < c.bytes
    · cases hl : l.coins with
      | nil =>
        rw [h.bytes, hl] at hover
        exact absurd hover (Nat.not_lt_zero _)
      | cons coin rest =>
        obtain ⟨tick, hold, ht, he⟩ := h.oldest? hl
        have hnext := h.without (hl ▸ List.mem_cons_self) ht
        have hlen : rest.length ≤ n := by
          rw [hl, List.length_cons] at hn
          omega
        rw [hl, List.erase_cons_head] at hnext
        obtain ⟨es, c', hevicts, hshrink⟩ := ih hnext hlen
        refine ⟨⟨coin, coin.footprint, tick⟩ :: es, c', .take hover hold he (h.footprint_le he) hevicts, ?_⟩
        unfold Cache.shrink
        rw [if_pos hover]
        simp only [Cache.dropOldest, hold, he, hshrink, List.length_cons]
    · have hfits := Nat.le_of_not_lt hover
      exact ⟨[], c, .fits hfits, Cache.shrink_of_fits hfits _⟩

end Represents

/-! ## Coins that fit -/

namespace RecencyList

variable {l : RecencyList}

/-- The coins of a list take no more than the ceiling. -/
def Fits (l : RecencyList) : Prop := room l.coins ≤ l.ceiling

theorem room_sublist {coins others : List Coin} (h : coins.Sublist others) : room coins ≤ room others := by
  rw [room_eq_sum, room_eq_sum]
  exact (h.map Coin.footprint).sum_le_sum fun _ _ => Nat.zero_le _

theorem ceiling_choose (choice : Option Coin) (l : RecencyList) : (l.choose choice).2.ceiling = l.ceiling := by
  cases choice <;> rfl

namespace Fits

/-- What is left when coins leave. -/
theorem sublist (h : l.Fits) {coins : List Coin} (hsub : coins.Sublist l.coins) : Fits { l with coins } :=
  (room_sublist hsub).trans h

/-- A use of a coin that is listed. -/
theorem use (h : l.Fits) {coin : Coin} (hc : coin ∈ l.coins) : (l.use coin).Fits := by
  unfold Fits
  rw [room_perm (perm_use hc)]
  exact h

/-- A choice among the coins that are listed. -/
theorem choose {choice : Option Coin} (h : l.Fits) (hchoice : ∀ coin ∈ choice, coin ∈ l.coins) :
    (l.choose choice).2.Fits := by
  unfold Fits
  rw [room_perm (perm_choose hchoice), ceiling_choose]
  exact h

/-- Eviction makes the coins fit. -/
theorem evict (l : RecencyList) : l.evict.2.Fits := Nat.find_spec (exists_fits l.ceiling l.coins)

theorem store (h : l.Fits) (coin : Coin) : (l.store coin).2.Fits := by
  cases hf : l.coins.find? (·.slot = coin.slot) with
  | some kept =>
    rw [store_of_listed hf]
    exact h.use (List.mem_of_find?_eq_some hf)
  | none =>
    rw [store_of_new hf]
    exact evict (l.append coin)

/-- **Every call** leaves coins that fit. -/
theorem onList (h : l.Fits) (call : CacheCall) : (call.onList l).2.Fits := by
  cases call with
  | store coin => exact h.store coin
  | best owner tier =>
    apply h.choose
    intro coin hc
    exact (List.mem_filter.1 (List.argmin_mem hc)).1
  | bestOrWeaker owner tier =>
    apply h.choose
    intro coin hc
    exact (List.mem_filter.1 (List.argmin_mem hc)).1
  | discard owner keyId => exact h.sublist List.filter_sublist
  | evict => exact evict l
  | purge owner => exact h.sublist List.filter_sublist
  | held owner => exact h

end Fits

/-- No call changes the ceiling. -/
theorem ceiling_onList (call : CacheCall) (l : RecencyList) : (call.onList l).2.ceiling = l.ceiling := by
  cases call with
  | store coin =>
    show (l.store coin).2.ceiling = l.ceiling
    cases hf : l.coins.find? (·.slot = coin.slot) with
    | some kept =>
      rw [store_of_listed hf]
      rfl
    | none =>
      rw [store_of_new hf]
      rfl
  | best owner tier => exact ceiling_choose _ l
  | bestOrWeaker owner tier => exact ceiling_choose _ l
  | discard | evict | purge | held => rfl

end RecencyList

/-! ## Calls on an inventory -/

/-- A cache under a ceiling holds coins that fit. -/
def Cache.Fitting (ceiling : Nat) (c : Cache) : Prop := ∃ l, Represents c l ∧ l.ceiling = ceiling ∧ l.Fits

namespace Cache.Fitting

variable {ceiling : Nat} {c : Cache} {i : Inventory}

theorem empty (ceiling : Nat) : ({ ceiling } : Cache).Fitting ceiling :=
  ⟨_, .empty ceiling, rfl, Nat.zero_le _⟩

/-- **Every call** leaves a cache that fits. -/
theorem make (h : i.cache.Fitting ceiling) (call : InventoryCall) : (call.make i).2.cache.Fitting ceiling := by
  cases call with
  | cache call =>
    obtain ⟨l, hl, hceiling, hfits⟩ := h
    obtain ⟨-, hnext, -⟩ := CacheCall.onInventory_eq_onList hl call
    exact ⟨_, hnext, (ceiling_onList call l).trans hceiling, hfits.onList call⟩
  | vault call => exact h

/-- **Calls one after the other** on an inventory that was empty leave a cache that fits. -/
theorem after_calls (ceiling : Nat) (sealer : Crypto.Sealer) (calls : List InventoryCall) :
    (transcript InventoryCall.make calls (.empty ceiling sealer)).2.cache.Fitting ceiling := by
  refine transcript_induction (P := fun i : Inventory => i.cache.Fitting ceiling) ?_ calls (.empty ceiling)
  intro call i h
  exact h.make call

end Cache.Fitting

namespace Cache

/-- What holds of a cache between two calls. -/
structure Sound (ceiling : Nat) (c : Cache) : Prop where
  wellFormed : c.WellFormed
  ceiling_eq : c.ceiling = ceiling
  bytes_le : c.bytes ≤ ceiling
  /-- Slots that are emptied one after the other, as by a purge, leave the indexes in step. However many there were, the
  next one gives back no more room than is taken. -/
  remove : ∀ (slots : List Slot), (c.removeAll slots).WellFormed ∧
    ∀ (slot : Slot) (e : CacheEntry), (c.removeAll slots).entries[slot]? = some e →
      e.footprint ≤ (c.removeAll slots).bytes
  /-- There is nothing to evict. -/
  evict : c.evict = (0, c)
  /-- A new coin is put in before anything is taken out for it. The indexes are in step in between too, and what is
  counted are the entries taken out. -/
  store : ∀ (coin : Coin), c.entries[coin.slot]? = none → (c.insert coin).WellFormed ∧
    ∃ es rest, Evicts (c.insert coin) es rest ∧ rest.bytes ≤ ceiling ∧
      rest.entries.size + es.length = c.entries.size + 1 ∧
      (c.insert coin).evict = (es.length, { rest with evicted := c.evicted + es.length }) ∧
      c.store coin = (.ofDropped es.length, { rest with evicted := c.evicted + es.length })

/-- **A cache of coins that fit** is sound. -/
theorem Fitting.sound {ceiling : Nat} {c : Cache} (h : c.Fitting ceiling) : c.Sound ceiling := by
  obtain ⟨l, hl, rfl, hfits⟩ := h
  have hbytes : c.bytes ≤ l.ceiling := by
    rw [hl.bytes]
    exact hfits
  constructor
  · exact hl.wellFormed
  · exact hl.ceiling
  · exact hbytes
  · intro slots
    have hrest := hl.remove_slots slots
    exact ⟨hrest.wellFormed, fun slot e he => hrest.footprint_le he⟩
  · rw [← hl.ceiling] at hbytes
    unfold evict
    rw [shrink_of_fits hbytes]
    rfl
  · intro coin hfree
    have hput := hl.insert hfree
    obtain ⟨es, rest, hevicts, hshrink⟩ := hput.evicts (Nat.le_of_eq hput.length_recency.symm)
    have hevict : (c.insert coin).evict = (es.length, { rest with evicted := c.evicted + es.length }) := by
      have hevicted : rest.evicted = c.evicted := hevicts.frame.2
      unfold evict
      rw [hshrink, ← hevicted]
    refine ⟨hput.wellFormed, es, rest, hevicts, ?_, ?_, hevict, ?_⟩
    · calc
        rest.bytes ≤ rest.ceiling := hevicts.bytes_le
        _ = l.ceiling := hevicts.frame.1.trans hl.ceiling
    · rw [hevicts.size, hput.size_entries, hl.size_entries]
      exact List.length_append
    · rw [store_of_free hfree, hevict]

end Cache

/-- **The cache of an inventory is sound**, whatever is called on the inventory. -/
theorem cache_sound (ceiling : Nat) (sealer : Crypto.Sealer) (calls : List InventoryCall) :
    (transcript InventoryCall.make calls (.empty ceiling sealer)).2.cache.Sound ceiling := by
  have hfitting : (transcript InventoryCall.make calls (.empty ceiling sealer)).2.cache.Fitting ceiling := by
    refine transcript_induction (P := fun i : Inventory => i.cache.Fitting ceiling) ?_ calls (.empty ceiling)
    intro call i h
    exact h.make call
  exact hfitting.sound

end CoinRelay
