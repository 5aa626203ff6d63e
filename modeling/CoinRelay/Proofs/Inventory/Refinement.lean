import CoinRelay.Proofs.Inventory.Choice

/-!
# The cache is a recency list

Every operation of a cache answers as the recency list does and keeps to it, and so does every sequence of operations
on an inventory that was empty.

- `Represents.discard`, `Represents.purge`: coins that leave;
- `CacheCall`: the operations as data, made on an inventory or on a list;
- `inventory_eq_recencyList`: both answer alike and end with the same counters.
-/

namespace CoinRelay

open RecencyList

/-- Empties slots one after the other. -/
def Cache.removeAll (slots : List Slot) (c : Cache) : Cache := slots.foldl (fun c slot => (c.remove slot).2) c

namespace Represents

variable {c : Cache} {l : RecencyList}

/-! ## Coins that leave -/

/-- A slot is emptied, whether there was a coin in it or not. -/
theorem remove_slot (h : Represents c l) (slot : Slot) :
    (c.remove slot).1 = l.coins.any (fun coin => coin.slot = slot) ∧
      Represents (c.remove slot).2 { l with coins := l.coins.filter fun coin => coin.slot ≠ slot } := by
  cases he : c.entries[slot]? with
  | none =>
    have hfree := h.entries_eq_none_iff.1 he
    have hany : l.coins.any (fun coin => coin.slot = slot) = false := by
      simpa using hfree
    have hself : l.coins.filter (fun coin => coin.slot ≠ slot) = l.coins :=
      List.filter_eq_self.2 fun coin hc => decide_eq_true (hfree coin hc)
    simp only [Cache.remove, he, hany, hself]
    exact ⟨trivial, h⟩
  | some e =>
    obtain ⟨hc, rfl, -⟩ := h.of_entry he
    obtain ⟨hremoved, hrest⟩ := h.remove hc
    have hany : l.coins.any (fun coin => coin.slot = e.coin.slot) = true :=
      List.any_eq_true.2 ⟨e.coin, hc, decide_eq_true rfl⟩
    have herase : l.coins.erase e.coin = l.coins.filter fun coin => coin.slot ≠ e.coin.slot := by
      rw [h.coins_nodup.erase_eq_filter]
      apply List.filter_congr
      intro other ho
      rw [Bool.eq_iff_iff, bne_iff_ne, decide_eq_true_iff]
      exact not_congr ⟨fun heq => heq ▸ rfl, h.eq_of_slot_eq ho hc⟩
    exact ⟨hremoved.trans hany.symm, herase ▸ hrest⟩

theorem slot_eq_iff {coin : Coin} {owner : String} {keyId : KeyId} :
    coin.slot = ⟨owner, keyId⟩ ↔ coin.owner = owner ∧ coin.keyId = keyId := by
  rw [Coin.slot, Slot.mk.injEq]

/-- **Discarding** drops the coin of an owner and an identifier. -/
theorem discard (h : Represents c l) (owner : String) (keyId : KeyId) :
    (c.discard owner keyId).1 = (l.discard owner keyId).1 ∧
      Represents (c.discard owner keyId).2 (l.discard owner keyId).2 := by
  have hslot := h.remove_slot ⟨owner, keyId⟩
  simp only [slot_eq_iff, ne_eq] at hslot
  exact hslot

/-- Slots are emptied one after the other. -/
theorem remove_slots (h : Represents c l) (slots : List Slot) :
    Represents (c.removeAll slots) { l with coins := l.coins.filter fun coin => coin.slot ∉ slots } := by
  induction slots generalizing c l with
  | nil =>
    simp only [List.not_mem_nil, not_false_eq_true, decide_true, List.filter_true]
    exact h
  | cons slot slots ih =>
    have hrest := ih (h.remove_slot slot).2
    have hfilter : (l.coins.filter fun coin => coin.slot ≠ slot).filter (fun coin => coin.slot ∉ slots) =
        l.coins.filter fun coin => coin.slot ∉ slot :: slots := by
      rw [List.filter_filter]
      apply List.filter_congr
      intro coin _
      simp only [List.mem_cons, not_or, Bool.decide_and, Bool.and_comm, ne_eq]
    rw [hfilter] at hrest
    exact hrest

/-- **Purging** drops the coins of an owner. -/
theorem purge (h : Represents c l) (owner : String) :
    (c.purge owner).1 = (l.purge owner).1 ∧ Represents (c.purge owner).2 (l.purge owner).2 := by
  have hslots : ∀ coin ∈ l.coins,
      decide (coin.slot ∉ (c.entriesOf owner).map (·.coin.slot)) = decide (coin.owner ≠ owner) := by
    intro coin hc
    rw [decide_eq_decide]
    refine not_congr ⟨fun hs => ?_, fun ho => ?_⟩
    · obtain ⟨e, he, hs⟩ := List.mem_map.1 hs
      have howner := (h.mem_coinsOf.1 (List.mem_map_of_mem he)).2
      rw [← howner]
      exact congrArg Slot.owner hs.symm
    · obtain ⟨e, he, rfl⟩ := List.mem_map.1 (h.mem_coinsOf.2 ⟨hc, ho⟩)
      exact List.mem_map_of_mem he
  have hrest := h.remove_slots ((c.entriesOf owner).map (·.coin.slot))
  rw [List.filter_congr hslots] at hrest
  refine ⟨?_, hrest⟩
  show ((c.entriesOf owner).map (·.coin.slot)).length = (l.coins.filter fun coin => coin.owner = owner).length
  rw [List.length_map, ← (h.coinsOf_perm owner).length_eq, List.length_map]

end Represents

/-! ## Sequences of calls -/

/-- There are as many entries as coins. -/
theorem Represents.size_entries {c : Cache} {l : RecencyList} (h : Represents c l) :
    c.entries.size = l.coins.length := by
  have hperm : c.entries.keys.Perm (l.coins.map (·.slot)) := by
    refine (List.perm_ext_iff_of_nodup c.entries.nodup_keys h.nodup).2 ?_
    intro slot
    rw [Std.ExtTreeMap.mem_keys, Std.ExtTreeMap.mem_iff_isSome_getElem?, List.mem_map, Option.isSome_iff_ne_none, ne_eq,
      h.entries_eq_none_iff]
    simp only [not_forall, not_not, exists_prop]
  rw [← Std.ExtTreeMap.length_keys, hperm.length_eq, List.length_map]

/-- A call on the cache of an inventory. -/
inductive CacheCall
  | store (coin : Coin)
  | best (owner : String) (tier : Tier)
  | bestOrWeaker (owner : String) (tier : Tier)
  | discard (owner : String) (keyId : KeyId)
  | evict
  | purge (owner : String)
  | held (owner : String)
  deriving DecidableEq, Repr

/-- What a call answers. -/
inductive CacheAnswer
  | stored (outcome : CacheOutcome)
  | chosen (coin : Option Coin)
  | discarded (found : Bool)
  | dropped (number : Nat)
  | counted (counts : Option Tier.Counts)
  deriving DecidableEq, Repr

namespace CacheCall

/-- Names the answer of an operation. -/
def answering {α σ : Type} (f : α → CacheAnswer) (result : α × σ) : CacheAnswer × σ := (f result.1, result.2)

/-- A call made on an inventory. -/
def onInventory (call : CacheCall) (i : Inventory) : CacheAnswer × Inventory :=
  match call with
  | store coin => answering .stored (i.onCache (·.store coin))
  | best owner tier => answering .chosen (i.onCache (·.best? owner tier))
  | bestOrWeaker owner tier => answering .chosen (i.onCache (·.bestOrWeaker? owner tier))
  | discard owner keyId => answering .discarded (i.onCache (·.discard owner keyId))
  | evict => answering .dropped (i.onCache (·.evict))
  | purge owner => answering .dropped (i.onCache (·.purge owner))
  | held owner => (.counted (i.cache.held? owner), i)

/-- A call made on a recency list. -/
def onList (call : CacheCall) (l : RecencyList) : CacheAnswer × RecencyList :=
  match call with
  | store coin => answering .stored (l.store coin)
  | best owner tier => answering .chosen (l.best? owner tier)
  | bestOrWeaker owner tier => answering .chosen (l.bestOrWeaker? owner tier)
  | discard owner keyId => answering .discarded (l.discard owner keyId)
  | evict => answering .dropped l.evict
  | purge owner => answering .dropped (l.purge owner)
  | held owner => (.counted (l.held? owner), l)

/-- Makes calls one after the other; gives their answers and what they leave. -/
def results {σ : Type} (make : CacheCall → σ → CacheAnswer × σ) : List CacheCall → σ → List CacheAnswer × σ
  | [], s => ([], s)
  | call :: calls, s =>
    let (answer, s) := make call s
    let (answers, s) := results make calls s
    (answer :: answers, s)

/-- One call answers as on the list, keeps to the list and leaves the vault alone. -/
theorem onInventory_eq_onList {i : Inventory} {l : RecencyList} (h : Represents i.cache l) (call : CacheCall) :
    (call.onInventory i).1 = (call.onList l).1 ∧ Represents (call.onInventory i).2.cache (call.onList l).2 ∧
      (call.onInventory i).2.vault = i.vault := by
  cases call with
  | store coin => exact ⟨congrArg _ (h.store coin).1, (h.store coin).2, rfl⟩
  | best owner tier => exact ⟨congrArg _ (h.best? owner tier).1, (h.best? owner tier).2, rfl⟩
  | bestOrWeaker owner tier => exact ⟨congrArg _ (h.bestOrWeaker? owner tier).1, (h.bestOrWeaker? owner tier).2, rfl⟩
  | discard owner keyId => exact ⟨congrArg _ (h.discard owner keyId).1, (h.discard owner keyId).2, rfl⟩
  | evict => exact ⟨congrArg _ h.evict.1, h.evict.2, rfl⟩
  | purge owner => exact ⟨congrArg _ (h.purge owner).1, (h.purge owner).2, rfl⟩
  | held owner => exact ⟨congrArg _ (h.held? owner), h, rfl⟩

/-- Calls answer as on the list, keep to the list and leave the vault alone. -/
theorem results_onInventory_eq {i : Inventory} {l : RecencyList} (h : Represents i.cache l) (calls : List CacheCall) :
    (results onInventory calls i).1 = (results onList calls l).1 ∧
      Represents (results onInventory calls i).2.cache (results onList calls l).2 ∧
      (results onInventory calls i).2.vault = i.vault := by
  induction calls generalizing i l with
  | nil => exact ⟨rfl, h, rfl⟩
  | cons call calls ih =>
    obtain ⟨hanswer, hnext, hvault⟩ := onInventory_eq_onList h call
    obtain ⟨hanswers, hrest, hvaults⟩ := ih hnext
    exact ⟨congrArg₂ List.cons hanswer hanswers, hrest, hvaults.trans hvault⟩

end CacheCall

/-- The counters of a cache are those of its list. -/
theorem Represents.stats {i : Inventory} {l : RecencyList} (h : Represents i.cache l) :
    i.stats = { l.stats with vaultEntries := i.vault.entries.size, burnedTotal := i.vault.burned } := by
  simp only [Inventory.stats, RecencyList.stats, h.size_entries, h.bytes, h.ceiling, h.evicted]

/-- **The cache is a recency list**: whatever the ceiling and the calls, an inventory that was empty answers as the
list does and ends with its counters. -/
theorem inventory_eq_recencyList (ceiling : Nat) (sealer : Crypto.Sealer) (calls : List CacheCall) :
    (CacheCall.results CacheCall.onInventory calls (.empty ceiling sealer)).1 =
        (CacheCall.results CacheCall.onList calls { ceiling }).1 ∧
      (CacheCall.results CacheCall.onInventory calls (.empty ceiling sealer)).2.stats =
        (CacheCall.results CacheCall.onList calls { ceiling }).2.stats := by
  obtain ⟨hanswers, hrest, hvault⟩ :=
    CacheCall.results_onInventory_eq (i := .empty ceiling sealer) (Represents.empty ceiling) calls
  refine ⟨hanswers, ?_⟩
  rw [hrest.stats, hvault]
  rfl

end CoinRelay
