import CoinRelay.Proofs.Client.Batch
import CoinRelay.Proofs.Tier

/-!
# How many keys a batch has

No table of quantities that can be built (`Issuance.Built`) asks for more keys of a tier than a seed has indexes, so a
batch tries as many slots of each tier as the table asks for, and each of them is counted once in its report, as minted
or as skipped (`tried_of_sealable`).
-/

namespace CoinRelay

/-! ## Tables of quantities -/

/-- The tables that can be built: the default one, with other quantities to mint or to fetch. -/
inductive Issuance.Built : Issuance → Prop
  | default : Built {}
  | withMint (counts : Tier.Counts) {i : Issuance} : Built i → Built (i.withMint counts)
  | withReplenish (p : Priority) (counts : Tier.Counts) {i : Issuance} : Built i → Built (i.withReplenish p counts)

/-- **A table that can be built** asks for no more keys of a tier than there are indexes. -/
theorem Issuance.Built.mint_le {i : Issuance} (h : i.Built) (tier : Tier) :
    (i.mint.get tier).toNat ≤ KeyId.indexesPerTier := by
  induction h with
  | default => cases tier <;> decide
  | withMint counts _ _ =>
    have hmin (n : UInt32) : (min n mintBound).toNat ≤ KeyId.indexesPerTier := by
      show (if n ≤ mintBound then n else mintBound).toNat ≤ mintBound.toNat
      split
      · next hle => exact UInt32.le_iff_toNat_le.1 hle
      · exact Nat.le_refl _
    cases tier <;> exact hmin _
  | withReplenish p counts _ ih =>
    cases p <;> exact ih

example : (({} : Issuance).withMint ⟨70000, 65536, 1⟩).mint = ⟨65536, 65536, 1⟩ := by decide

namespace Client

variable {c : Client} {seed : UInt64}

/-! ## Slots -/

/-- A batch has a slot for each index that is asked for. -/
theorem countP_fst_keySlots (quantities : Tier.Counts) (tier : Tier) :
    (keySlots quantities).countP (·.1 = tier) = min (quantities.get tier).toNat KeyId.indexesPerTier := by
  have hslots (other : Tier) (n : Nat) :
      ((List.range n).map fun index => (other, UInt16.ofNat index)).countP (·.1 = tier) =
        if other = tier then n else 0 := by
    rw [List.countP_map]
    by_cases ht : other = tier <;> simp [ht, Function.comp_def]
  unfold keySlots
  simp only [Tier.all, List.flatMap_cons, List.flatMap_nil, List.countP_append, List.countP_nil, hslots]
  cases tier <;> simp

theorem length_keySlots (quantities : Tier.Counts) :
    (keySlots quantities).length =
      min quantities.gold.toNat KeyId.indexesPerTier + min quantities.silver.toNat KeyId.indexesPerTier +
        min quantities.bronze.toNat KeyId.indexesPerTier := by
  unfold keySlots
  simp only [Tier.all, List.flatMap_cons, List.flatMap_nil, List.length_append, List.length_map, List.length_range,
    List.length_nil, Tier.Counts.get]
  omega

/-- No batch has more slots than can be counted in 32 bits. -/
theorem length_keySlots_lt (quantities : Tier.Counts) : (keySlots quantities).length < 2 ^ 32 := by
  have hbound : KeyId.indexesPerTier = 2 ^ 16 := rfl
  rw [length_keySlots]
  omega

theorem length_batchTries (c : Client) : c.batchTries.length = (keySlots c.issuance.mint).length := by
  rw [← map_slot_tries (keySlots c.issuance.mint) c.mint, List.length_map]
  rfl

/-! ## Coins -/

/-- The coins are of the tiers of the slots whose keys were generated. -/
theorem map_tier_issues (user : String) (seed : UInt64) (ts : List Try) :
    (issues user seed ts).map (·.1.tier) = (ts.filter (!·.failed)).map (·.slot.1) := by
  induction ts with
  | nil => rfl
  | cons t ts ih =>
    obtain ⟨slot, result⟩ := t
    cases result with
    | error e => exact ih
    | ok pair => exact congrArg (slot.1 :: ·) ih

theorem length_coins (seed : UInt64) (c : Client) :
    (c.coins seed).length + skips c.batchTries = (keySlots c.issuance.mint).length := by
  rw [coins, List.length_map, issued, length_issues, length_batchTries]

theorem length_coins_lt (seed : UInt64) (c : Client) : ((c.coins seed).map (·.tier)).length < 2 ^ 32 := by
  have hslots := length_keySlots_lt c.issuance.mint
  have hcoins := length_coins seed c
  rw [List.length_map]
  omega

theorem fits_coins (seed : UInt64) (c : Client) : Tier.Counts.Fits ((c.coins seed).map (·.tier)) :=
  Tier.Counts.fits_of_length_lt (length_coins_lt seed c)

/-- **The coins of a batch** can be counted one at a time: no count passes 32 bits. -/
theorem tally?_coins (seed : UInt64) (c : Client) :
    Tier.Counts.tally? ((c.coins seed).map (·.tier)) = some (c.report seed).minted :=
  Tier.Counts.tally?_eq_some_iff.2 ⟨fits_coins seed c, rfl⟩

/-- **Each slot is counted once**, as minted or as skipped. -/
theorem sum_report (seed : UInt64) (c : Client) :
    (c.report seed).minted.sum = (c.coins seed).length ∧ (c.report seed).skipped.toNat = skips c.batchTries := by
  have hslots := length_keySlots_lt c.issuance.mint
  have hcoins := length_coins seed c
  constructor
  · rw [report, Tier.Counts.sum_tally (fits_coins seed c), List.length_map]
  · rw [report, UInt32.toNat_ofNat']
    exact Nat.mod_eq_of_lt (by omega)

/-! ## Batches -/

/-- The report of a batch that was published or that was empty. -/
theorem of_mintBatch_ok {σ : Type} {link : Link σ} {now : UInt64} {s : σ} {report : MintReport}
    (hseed : c.nextSeed? now = some seed) (h : c.Sealable seed) (hok : (c.mintBatch link now s).1 = .ok report) :
    report.minted = (c.report seed).minted ∧ report.skipped = (c.report seed).skipped := by
  rw [mintBatch_of_sealable hseed h] at hok
  split at hok
  · cases hok
    exact ⟨rfl, rfl⟩
  · unfold publishBatch at hok
    split at hok
    · cases hok
      exact ⟨rfl, rfl⟩
    · cases hok
    · cases hok

/-- A batch tries what its client's table asks for, and reports what came of it. -/
structure Tried {σ : Type} (link : Link σ) (now seed : UInt64) (c : Client) (s : σ) : Prop where
  /-- As many slots of a tier are tried as are asked for. -/
  slots : ∀ tier, c.batchTries.countP (·.slot.1 = tier) = (c.issuance.mint.get tier).toNat
  /-- Each of them takes one attempt of the mint. -/
  mint : (c.mintBatch link now s).2.1.mint = c.mint.spent c.batchTries.length
  /-- The slots whose keys were generated are reported as minted. -/
  minted : ∀ report, (c.mintBatch link now s).1 = .ok report →
    ∀ tier, (report.minted.get tier).toNat = c.batchTries.countP fun t => t.slot.1 = tier && !t.failed
  /-- The others are reported as skipped. -/
  skipped : ∀ report, (c.mintBatch link now s).1 = .ok report → report.skipped.toNat = skips c.batchTries
  /-- Together they are all that was asked for. -/
  sum : ∀ report, (c.mintBatch link now s).1 = .ok report →
    report.minted.sum + report.skipped.toNat = c.issuance.mint.sum

/-- **A batch that can be sealed** tries what is asked for. -/
theorem tried_of_sealable {σ : Type} {now : UInt64} (hseed : c.nextSeed? now = some seed) (h : c.Sealable seed)
    (hbuilt : c.issuance.Built) (link : Link σ) (s : σ) : Tried link now seed c s := by
  obtain ⟨hsum, hskipped⟩ := sum_report seed c
  have hmin (tier : Tier) :
      min (c.issuance.mint.get tier).toNat KeyId.indexesPerTier = (c.issuance.mint.get tier).toNat :=
    Nat.min_eq_left (hbuilt.mint_le tier)
  refine ⟨fun tier => ?_, ?_, fun report hok tier => ?_, fun report hok => ?_, fun report hok => ?_⟩
  · rw [← hmin, ← countP_fst_keySlots, ← map_slot_tries (keySlots c.issuance.mint) c.mint, List.countP_map]
    rfl
  · rw [mintBatch_of_sealable hseed h, length_batchTries]
    split
    · rfl
    · unfold publishBatch
      split <;> rfl
  · obtain ⟨hminted, -⟩ := of_mintBatch_ok hseed h hok
    have htiers : (c.coins seed).map (·.tier) = (c.batchTries.filter (!·.failed)).map (·.slot.1) := by
      rw [coins, List.map_map]
      exact map_tier_issues c.user seed c.batchTries
    rw [hminted]
    show ((Tier.Counts.tally _).get tier).toNat = _
    rw [Tier.Counts.toNat_get_tally (fits_coins seed c), htiers, List.count, List.countP_map, List.countP_filter]
    rfl
  · rw [(of_mintBatch_ok hseed h hok).2, hskipped]
  · obtain ⟨hminted, hskip⟩ := of_mintBatch_ok hseed h hok
    rw [hminted, hskip, hsum, hskipped, length_coins, length_keySlots]
    have hgold := hmin .gold
    have hsilver := hmin .silver
    have hbronze := hmin .bronze
    simp only [Tier.Counts.get] at hgold hsilver hbronze
    rw [hgold, hsilver, hbronze]
    rfl

end Client

end CoinRelay
