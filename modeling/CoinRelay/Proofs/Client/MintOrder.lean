import CoinRelay.Proofs.Client.Series
import CoinRelay.Proofs.Inventory.Stock

/-!
# Coins in the order they were minted

An identifier is its parts side by side, the seed first (`KeyId.packs_derive`), so identifiers compare as their parts
do (`KeyId.derive_lt_iff`). A batch goes through tiers and indexes in this order, and a later one has a greater seed. So
the identifiers of a client grow as it mints (`Series.pairwise_keyIds`), and a cache, which gives out the smallest
first, gives out the oldest first.

- `RecencyList.argmin_eq_find?`, `Cache.Consistent.best?_of_pairwise`: of coins in the order of their identifiers, the
  first that is cached is given;
- `Cache.Consistent.mem_transcript`: a cached coin was stored;
- `minted`, `Series.best?_oldest`: the coins of a series, and the oldest that is still cached.
-/

namespace CoinRelay

/-! ## The first coin that is cached -/

theorem InventoryCall.exists_of_storesCoin {call : InventoryCall} (h : call.storesCoin = true) :
    ∃ coin, call = .cache (.store coin) := by
  unfold storesCoin at h
  split at h
  · next coin => exact ⟨coin, rfl⟩
  · cases h
  · cases h

/-- The least of some coins is the first of them in a list that is in order. -/
theorem RecencyList.argmin_eq_find? {f : Coin → Nat} {p : Coin → Bool} {coins all : List Coin}
    (hsorted : all.Pairwise fun a b => f a < f b) (hmem : ∀ coin, coin ∈ coins ↔ coin ∈ all ∧ p coin) :
    coins.argmin f = all.find? p := by
  cases hfind : all.find? p with
  | none =>
    refine List.argmin_eq_none.2 (List.eq_nil_iff_forall_not_mem.2 fun coin hcoin => ?_)
    obtain ⟨hin, hp⟩ := (hmem coin).1 hcoin
    exact List.find?_eq_none.1 hfind coin hin hp
  | some coin =>
    obtain ⟨hp, before, after, rfl, hbefore⟩ := List.find?_eq_some_iff_append.1 hfind
    rw [List.pairwise_append, List.pairwise_cons] at hsorted
    obtain ⟨-, ⟨hlater, -⟩, -⟩ := hsorted
    have hcoin : coin ∈ coins := (hmem coin).2 ⟨List.mem_append_right _ List.mem_cons_self, hp⟩
    refine argmin_eq_some_of_lt hcoin fun other hother hne => ?_
    obtain ⟨hin, hp'⟩ := (hmem other).1 hother
    -- none of those before the first is among the coins
    rcases List.mem_append.1 hin with hin | hin
    · have hnot := hbefore other hin
      rw [hp'] at hnot
      cases hnot
    · exact hlater other ((List.mem_cons.1 hin).resolve_left hne)

namespace Cache

variable {c : Cache} {user : String} {tier : Tier} {all : List Coin}

/-- **The first that is cached** of a list of coins is given, if they are in the order of their identifiers and all
cached coins of the user and the tier are among them. -/
theorem Consistent.best?_of_pairwise (h : c.Consistent) (hsorted : all.Pairwise fun a b => a.keyId.word < b.keyId.word)
    (howner : ∀ coin ∈ all, coin.owner = user)
    (hall : ∀ coin ∈ c.coins, coin.owner = user → coin.tier = tier → coin ∈ all) :
    (c.best? user tier).1 = all.find? fun coin => coin.tier = tier ∧ coin ∈ c.coins := by
  have hchoice : (c.best? user tier).1 =
      (c.byRecency.filter fun coin => coin.owner = user ∧ coin.tier = tier).argmin fun coin => coin.keyId.word.toNat :=
    (h.represents.best? user tier).1
  rw [hchoice]
  refine RecencyList.argmin_eq_find? (hsorted.imp UInt64.lt_iff_toNat_lt.1) fun coin => ?_
  rw [List.mem_filter, decide_eq_true_iff, decide_eq_true_iff, h.coins_eq, Multiset.mem_coe]
  constructor
  · rintro ⟨hin, hown, htier⟩
    refine ⟨hall coin ?_ hown htier, htier, hin⟩
    rw [h.coins_eq]
    exact hin
  · rintro ⟨hmem, htier, hin⟩
    exact ⟨hin, howner coin hmem, htier⟩

/-- A call adds no coin but the one that it stores. -/
theorem Consistent.mem_make {i : Inventory} (h : i.cache.Consistent) (call : InventoryCall) :
    (call.make i).2.cache.Consistent ∧
      ∀ coin ∈ (call.make i).2.cache.coins, coin ∈ i.cache.coins ∨ .cache (.store coin) = call := by
  cases hcall : call.storesCoin with
  | false =>
    obtain ⟨hnext, hle⟩ := h.coins_make_le hcall
    exact ⟨hnext, fun coin hcoin => .inl (Multiset.mem_of_le hle hcoin)⟩
  | true =>
    obtain ⟨stored, rfl⟩ := InventoryCall.exists_of_storesCoin hcall
    obtain ⟨hnext, hle⟩ := h.store stored
    refine ⟨hnext, fun coin hcoin => ?_⟩
    rcases Multiset.mem_cons.1 (Multiset.mem_of_le hle hcoin) with rfl | hin
    · exact .inr rfl
    · exact .inl hin

/-- **A cached coin was stored** by one of the calls, if it was not there before them. -/
theorem Consistent.mem_transcript (calls : List InventoryCall) {i : Inventory} (h : i.cache.Consistent) :
    (transcript InventoryCall.make calls i).2.cache.Consistent ∧
      ∀ coin ∈ (transcript InventoryCall.make calls i).2.cache.coins,
        coin ∈ i.cache.coins ∨ .cache (.store coin) ∈ calls := by
  induction calls generalizing i with
  | nil => exact ⟨h, fun coin hcoin => .inl hcoin⟩
  | cons call calls ih =>
    obtain ⟨hnext, hfirst⟩ := h.mem_make call
    obtain ⟨hend, hrest⟩ := ih hnext
    refine ⟨hend, fun coin hcoin => ?_⟩
    rw [List.mem_cons]
    rcases hrest coin hcoin with hin | hstored
    · exact (hfirst coin hin).imp_right .inl
    · exact .inr (.inr hstored)

end Cache

/-! ## The order of minting -/

namespace Client

variable {σ : Type} {c : Client} {seed : UInt64} {slots : List (Tier × UInt16)}

/-- The slots of a batch are in the order of their tiers and indexes. -/
theorem pairwise_keySlots (quantities : Tier.Counts) :
    (keySlots quantities).Pairwise fun a b => toLex (a.1.rank, a.2) < toLex (b.1.rank, b.2) := by
  refine List.pairwise_flatMap.2 ⟨fun tier _ => List.pairwise_map.2 ?_, ?_⟩
  · refine List.pairwise_lt_range.imp_of_mem fun {i j} hi hj hlt => ?_
    have hi := List.mem_range.1 hi
    have hj := List.mem_range.1 hj
    have hbound : KeyId.indexesPerTier = 2 ^ 16 := rfl
    rw [Prod.Lex.toLex_lt_toLex]
    refine .inr ⟨rfl, UInt16.lt_iff_toNat_lt.2 ?_⟩
    rw [UInt16.toNat_ofNat', UInt16.toNat_ofNat']
    omega
  · have htiers : Tier.all.Pairwise fun t u => t.rank < u.rank := by decide
    refine htiers.imp fun {t u} hlt a ha b hb => ?_
    obtain ⟨_, _, rfl⟩ := List.mem_map.1 ha
    obtain ⟨_, _, rfl⟩ := List.mem_map.1 hb
    exact Prod.Lex.toLex_lt_toLex.2 (.inl hlt)

/-- Under one seed, identifiers grow with their slots. -/
theorem pairwise_slotIds (hfits : seed ≤ KeyId.maxSeed)
    (h : slots.Pairwise fun a b => toLex (a.1.rank, a.2) < toLex (b.1.rank, b.2)) :
    (slotIds seed slots).Pairwise (·.word < ·.word) := by
  refine List.pairwise_map.2 (h.imp fun {a b} hlt => ?_)
  exact (KeyId.derive_lt_iff hfits hfits).2 (Prod.Lex.toLex_lt_toLex.2 (.inr ⟨rfl, hlt⟩))

/-- Under a greater seed, all identifiers are greater. -/
theorem lt_of_mem_slotIds {later : UInt64} {slots' : List (Tier × UInt16)} (hlater : later ≤ KeyId.maxSeed)
    (hlt : seed < later) {k k' : KeyId} (hk : k ∈ slotIds seed slots) (hk' : k' ∈ slotIds later slots') :
    k.word < k'.word := by
  obtain ⟨slot, -, rfl⟩ := List.mem_map.1 hk
  obtain ⟨slot', -, rfl⟩ := List.mem_map.1 hk'
  have hfits : seed ≤ KeyId.maxSeed := UInt64.le_trans (UInt64.le_of_lt hlt) hlater
  exact (KeyId.derive_lt_iff hfits hlater).2 (Prod.Lex.toLex_lt_toLex.2 (.inl hlt))

/-- The coins of batches, in the order they were minted. -/
def minted (ms : List (Minting σ)) : List Coin := ms.flatMap fun m => m.client.coins m.seed

theorem map_keyId_minted (ms : List (Minting σ)) : (minted ms).map (·.keyId) = ms.flatMap (·.keyIds) := by
  rw [minted, List.map_flatMap]
  rfl

namespace Series

variable {link : Link σ} {Others : σ → σ → Prop} {s : σ} {ms : List (Minting σ)}

/-- All batches are those of the user. -/
theorem user_eq (h : Series link Others c s ms) : ∀ m ∈ ms, m.client.user = c.user := by
  induction h with
  | done => exact fun _ hm => absurd hm List.not_mem_nil
  | meanwhile hsame _ _ _ ih =>
    rw [← hsame]
    exact ih
  | batch m _ ih =>
    rw [(m.after_eq link).1] at ih
    exact List.forall_mem_cons.2 ⟨rfl, ih⟩

theorem owner_of_mem_minted (h : Series link Others c s ms) {coin : Coin} (hcoin : coin ∈ minted ms) :
    coin.owner = c.user := by
  obtain ⟨m, hm, hcoin⟩ := List.mem_flatMap.1 hcoin
  rw [owner_of_mem_coins hcoin, h.user_eq m hm]

/-- **Identifiers grow** as a client mints, from slot to slot and from batch to batch. -/
theorem pairwise_keyIds (h : Series link Others c s ms) (hfits : ∀ m ∈ ms, m.seed ≤ KeyId.maxSeed) :
    (ms.flatMap (·.keyIds)).Pairwise (·.word < ·.word) := by
  refine List.pairwise_flatMap.2 ⟨fun m hm => ?_, ?_⟩
  · exact (pairwise_slotIds (hfits m hm) (pairwise_keySlots _)).sublist (keyIds_coins_sublist m.seed m.client)
  · refine (List.pairwise_map.1 h.seeds.2).imp_of_mem fun {m later} _ hlater hlt k hk k' hk' => ?_
    exact lt_of_mem_slotIds (hfits later hlater) hlt ((keyIds_coins_sublist m.seed m.client).subset hk)
      ((keyIds_coins_sublist later.seed later.client).subset hk')

/-- **The oldest coin** of a tier that is still cached is given, if all that were stored are those of the series. -/
theorem best?_oldest (h : Series link Others c s ms) (hfits : ∀ m ∈ ms, m.seed ≤ KeyId.maxSeed) {tier : Tier}
    {calls : List InventoryCall}
    (hstored : ∀ coin, .cache (.store coin) ∈ calls → coin.owner = c.user → coin.tier = tier → coin ∈ minted ms)
    (ceiling : Nat) (sealer : Crypto.Sealer) :
    let cache := (transcript InventoryCall.make calls (.empty ceiling sealer)).2.cache
    (cache.best? c.user tier).1 = (minted ms).find? fun coin => coin.tier = tier ∧ coin ∈ cache.coins := by
  intro cache
  obtain ⟨hcache, hcoins⟩ := Cache.Consistent.mem_transcript calls (i := .empty ceiling sealer) (.empty ceiling)
  have hsorted := h.pairwise_keyIds hfits
  rw [← map_keyId_minted, List.pairwise_map] at hsorted
  refine hcache.best?_of_pairwise hsorted (fun coin hcoin => h.owner_of_mem_minted hcoin) ?_
  intro coin hcoin hown htier
  rcases hcoins coin hcoin with hin | hstore
  · exact absurd hin (by simp [Inventory.empty, Cache.coins])
  · exact hstored coin hstore hown htier

end Series

/-- **Identifiers are in the order of minting.** As long as they hold the seeds, they compare as seed, tier and index
do, no part is cut off or runs into another, and the seed is read back; of a greater seed, the low 40 bits are held. So
the identifiers of a client grow as it mints, whatever its clock reads, its tables ask for and becomes of its batches,
and of its coins of a tier, stored in any order and mixed with any other calls, the oldest that is still cached is the
best. -/
theorem keyId_order_is_mint_order :
    (∀ s s' t t' i i', s ≤ KeyId.maxSeed → s' ≤ KeyId.maxSeed →
      ((KeyId.derive s t i).word < (KeyId.derive s' t' i').word ↔
        toLex (s, toLex (t.rank, i)) < toLex (s', toLex (t'.rank, i')))) ∧
      (∀ s t i, s ≤ KeyId.maxSeed → KeyId.Packs s t i (KeyId.derive s t i)) ∧
      (∀ s t i, KeyId.derive s t i = KeyId.derive (UInt64.ofNat (s.toNat % 2 ^ 40)) t i) ∧
      ∀ {σ : Type} {link : Link σ} {Others : σ → σ → Prop} {c : Client} {s : σ} {ms : List (Minting σ)},
        Series link Others c s ms → (∀ m ∈ ms, m.seed ≤ KeyId.maxSeed) →
          (ms.flatMap (·.keyIds)).Pairwise (·.word < ·.word) ∧
          ∀ tier calls, (∀ coin, .cache (.store coin) ∈ calls → coin.owner = c.user → coin.tier = tier →
              coin ∈ minted ms) → ∀ ceiling sealer,
            let cache := (transcript InventoryCall.make calls (.empty ceiling sealer)).2.cache
            (cache.best? c.user tier).1 = (minted ms).find? fun coin => coin.tier = tier ∧ coin ∈ cache.coins := by
  refine ⟨fun s s' t t' i i' hs hs' => ?_, fun s t i hs => ?_, fun s t i => ?_,
    fun {σ link Others c s ms} h hfits => ?_⟩
  · exact KeyId.derive_lt_iff hs hs'
  · exact KeyId.packs_derive hs t i
  · exact KeyId.derive_mod s t i
  · exact ⟨h.pairwise_keyIds hfits, fun tier calls hstored => h.best?_oldest hfits hstored⟩

/-- The batch after a novice's first, when the clock has gone back to three. -/
def encore : Minting Broker where
  client := debut.after .direct
  now := 3
  state := debut.left .direct
  seed := 8
  nextSeed := by
    rw [nextSeed?, (debut.after_eq .direct).2]
    rfl

theorem keyId_order_is_mint_order_novice :
    (KeyId.derive 7 .silver 65535).word < (KeyId.derive 7 .bronze 0).word ∧
      KeyId.Packs KeyId.maxSeed .bronze 65535 (KeyId.derive KeyId.maxSeed .bronze 65535) ∧
      Series .direct (Elsewhere "alice") novice desk [debut, encore] ∧
      ([debut, encore].flatMap (·.keyIds)).Pairwise (·.word < ·.word) ∧
      let calls := (minted [debut, encore]).reverse.map fun coin => InventoryCall.cache (.store coin)
      let cache := (transcript InventoryCall.make calls (.empty defaultCeiling novice.inventory.vault.sealer)).2.cache
      (cache.best? "alice" .bronze).1 =
        (minted [debut, encore]).find? fun coin => coin.tier = .bronze ∧ coin ∈ cache.coins := by
  obtain ⟨horder, hpacks, -, hmint⟩ := keyId_order_is_mint_order
  have hseries : Series .direct (Elsewhere "alice") novice desk [debut, encore] := by
    have hdone : Series .direct (Elsewhere "alice") (encore.after .direct) (encore.left .direct) [] := .done _ _
    have hlate := Series.batch encore hdone
    have hclient : encore.client = debut.after .direct := by simp only [encore]
    have hstate : encore.state = debut.left .direct := by simp only [encore]
    rw [hclient, hstate] at hlate
    exact Series.batch debut hlate
  have hfits : ∀ m ∈ [debut, encore], m.seed ≤ KeyId.maxSeed := by
    intro m hm
    rcases List.mem_pair.1 hm with rfl | rfl <;> decide
  obtain ⟨hsorted, hbest⟩ := hmint hseries hfits
  have hbefore : toLex ((7 : UInt64), toLex (Tier.silver.rank, (65535 : UInt16))) <
      toLex (7, toLex (Tier.bronze.rank, 0)) :=
    Prod.Lex.toLex_lt_toLex.2 (.inr ⟨rfl, Prod.Lex.toLex_lt_toLex.2 (.inl (by decide))⟩)
  refine ⟨(horder 7 7 .silver .bronze 65535 0 (by decide) (by decide)).2 hbefore,
    hpacks _ .bronze 65535 (UInt64.le_refl _), hseries, hsorted, ?_⟩
  refine hbest .bronze _ (fun coin hcall _ _ => ?_) defaultCeiling _
  obtain ⟨stored, hstored, hsame⟩ := List.mem_map.1 hcall
  cases hsame
  exact List.mem_reverse.1 hstored

end Client

end CoinRelay
