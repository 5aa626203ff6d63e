import CoinRelay.Link.Direct
import CoinRelay.Proofs.Broker.Operation
import CoinRelay.Proofs.Client.Batch

/-!
# A batch is minted whole or not at all

However the publication of a batch ends, a client holds either what it held before (`HoldsSame`) or the secrets of all
its coins on top of that (`HoldsMore`), and it holds the latter before it publishes them (`mintBatch_atomic`). So of
whatever a broker lists of the batch the secret is there, as long as it lists nothing of a batch that it rejects
(`AllOrNothing`), as the broker at hand does (`allOrNothing_direct`).
-/

namespace CoinRelay.Client

variable {σ : Type} {c d : Client} {seed now : UInt64}

/-! ## What a client holds -/

/-- Two clients hold the same coins of others, in the same order of use, and the same secrets, and they evicted and
burned as many. -/
structure HoldsSame (c d : Client) : Prop where
  cache : d.inventory.cache = c.inventory.cache
  key : d.inventory.vault.sealer.key = c.inventory.vault.sealer.key
  entries : d.inventory.vault.entries = c.inventory.vault.entries
  burned : d.inventory.vault.burned = c.inventory.vault.burned

/-- A client holds the secrets behind coins on top of what another holds. -/
structure HoldsMore (issued : List (Coin × Octets)) (c d : Client) : Prop where
  cache : d.inventory.cache = c.inventory.cache
  vault : Vault.Gains (secrets issued) c.inventory.vault d.inventory.vault

/-- The secret behind a coin is handed out. -/
theorem HoldsMore.burn {issued : List (Coin × Octets)} (h : HoldsMore issued c d) {issue : Coin × Octets}
    (hissue : issue ∈ issued) : (d.inventory.vault.burn issue.1.keyId).1 = some issue.2 :=
  h.vault.opens (issue.1.keyId, issue.2) (List.mem_map_of_mem hissue)

/-- A client that dropped secrets that were not there before holds what it held before. -/
theorem HoldsSame.of_drops {keyIds : List KeyId} (hcache : d.inventory.cache = c.inventory.cache)
    (hdrops : Vault.Drops keyIds c.inventory.vault d.inventory.vault)
    (hfresh : ∀ keyId ∈ keyIds, keyId ∉ c.inventory.vault.entries) : HoldsSame c d :=
  ⟨hcache, hdrops.key, hdrops.entries_eq hfresh, hdrops.burned⟩

/-- None of the identifiers of a client's batch is taken. -/
def Fresh (seed : UInt64) (c : Client) : Prop := ∀ coin ∈ c.coins seed, coin.keyId ∉ c.inventory.vault.entries

/-- A client that can seal its batch holds it before it is published. -/
theorem holdsMore_holding (hfresh : c.Fresh seed) (h : c.Sealable seed) :
    HoldsMore (c.issued seed) c (c.holding seed) := by
  refine ⟨rfl, Vault.gains_storeAll h.secrets (nodup_fst_secrets seed c) fun entry hentry => ?_⟩
  obtain ⟨issue, hissue, rfl⟩ := List.mem_map.1 hentry
  exact hfresh issue.1 (List.mem_map_of_mem hissue)

/-- Dropping the batch again, it holds what it held before. -/
theorem holdsSame_discardSecrets (hfresh : c.Fresh seed) (h : HoldsMore (c.issued seed) c d) :
    HoldsSame c { d with inventory := d.inventory.discardSecrets ((c.coins seed).map (·.keyId)) } := by
  have hoff := h.vault.off
  rw [map_fst_secrets] at hoff
  rw [Vault.discardSecrets_eq]
  refine HoldsSame.of_drops h.cache (hoff.drops h.vault.burned) fun keyId hk => ?_
  obtain ⟨coin, hc, rfl⟩ := List.mem_map.1 hk
  exact hfresh coin hc

/-! ## Publication -/

/-- What a batch comes to when a client that holds its secrets publishes it. -/
structure Published (link : Link σ) (now seed : UInt64) (c holder : Client) (s : σ) : Prop where
  /-- The batch is published by the holder of its secrets. -/
  call : c.mintBatch link now s = publishBatch link (c.report seed) (c.coins seed) holder s
  /-- Acknowledged, it is reported with the counts of the acknowledgement, and the secrets stay. -/
  acked : ∀ ack t, link.publish (c.coins seed) s = (.ok ack, t) →
    c.mintBatch link now s =
      (.ok { c.report seed with accepted := ack.accepted, duplicates := ack.duplicates }, holder, t)
  /-- Rejected, it leaves nothing behind. -/
  rejected : ∀ code message t, link.publish (c.coins seed) s = (.error (.rejected code message), t) →
    ∃ d, HoldsSame c d ∧ c.mintBatch link now s = (.error (.link (.rejected code message)), d, t)
  /-- After any other failure the secrets stay. -/
  unknown : ∀ cause t, link.publish (c.coins seed) s = (.error cause, t) →
    (∀ code message, cause ≠ .rejected code message) → c.mintBatch link now s = (.error (.link cause), holder, t)

theorem published_of_call {link : Link σ} {s : σ} (hfresh : c.Fresh seed) (hd : HoldsMore (c.issued seed) c d)
    (hcall : c.mintBatch link now s = publishBatch link (c.report seed) (c.coins seed) d s) :
    Published link now seed c d s := by
  refine ⟨hcall, fun ack t hp => ?_, fun code message t hp => ?_, fun cause t hp hne => ?_⟩
  · rw [hcall, publishBatch, hp]
  · refine ⟨_, holdsSame_discardSecrets hfresh hd, ?_⟩
    rw [hcall, publishBatch, hp]
  · rw [hcall, publishBatch, hp]
    cases cause with
    | rejected code message => exact absurd rfl (hne code message)
    | transport | protocol => rfl

/-! ## All or nothing -/

/-- The broker behind a link lists nothing of a batch that it rejects. -/
def AllOrNothing (link : Link σ) (Lists : σ → Coin → Prop) : Prop :=
  ∀ coins s code message t, link.publish coins s = (.error (.rejected code message), t) →
    ∀ coin ∈ coins, Lists t coin → Lists s coin

/-- **The broker at hand** lists nothing of a batch that it rejects. -/
theorem allOrNothing_direct :
    AllOrNothing Link.direct fun b coin => ∃ l ∈ b.listings.of coin.owner, l.coin = coin := by
  intro coins b code message t hp coin _ hlists
  cases hinvalid : Broker.invalid? coins with
  | some e =>
    have hdirect : Link.direct.publish coins b = (.error (Link.rejection e), b) := by
      simp only [Link.direct, Broker.publish_of_invalid hinvalid, Except.mapError]
    rw [hdirect] at hp
    cases hp
    exact hlists
  | none =>
    simp only [Link.direct, Broker.publish, hinvalid, Except.mapError] at hp
    cases hp

/-- What a client holds after a batch, over any link and in any state of it. -/
structure Atomic (now seed : UInt64) (c : Client) : Prop where
  /-- If one of the secrets cannot be sealed, nothing is published and nothing stays. -/
  unsealed : ¬c.Sealable seed → ∃ reason d, HoldsSame c d ∧
    ∀ {σ : Type} (link : Link σ) (s : σ), c.mintBatch link now s = (.error (.crypto (.rng reason)), d, s)
  /-- Without coins, nothing is published. -/
  empty : c.coins seed = [] → ∃ d, HoldsSame c d ∧
    ∀ {σ : Type} (link : Link σ) (s : σ), c.mintBatch link now s = (.ok (c.report seed), d, s)
  /-- Otherwise the batch is published when its secrets are there. -/
  published : c.Sealable seed → c.coins seed ≠ [] → ∃ holder, HoldsMore (c.issued seed) c holder ∧
    ∀ {σ : Type} (link : Link σ) (s : σ), Published link now seed c holder s
  /-- Of each coin of the batch that gets listed the secret is there. -/
  backed : ∀ {σ : Type} (link : Link σ) (Lists : σ → Coin → Prop), AllOrNothing link Lists →
    ∀ (s : σ), ∀ issue ∈ c.issued seed, Lists (c.mintBatch link now s).2.2 issue.1 →
      Lists s issue.1 ∨ ((c.mintBatch link now s).2.1.inventory.vault.burn issue.1.keyId).1 = some issue.2

/-- Of what is listed the secret is there, whichever way a batch ends. -/
theorem backed_of_published {link : Link σ} {Lists : σ → Coin → Prop} (hall : AllOrNothing link Lists) {s : σ}
    (hd : HoldsMore (c.issued seed) c d) (h : Published link now seed c d s) {issue : Coin × Octets}
    (hissue : issue ∈ c.issued seed) (hlists : Lists (c.mintBatch link now s).2.2 issue.1) :
    Lists s issue.1 ∨ ((c.mintBatch link now s).2.1.inventory.vault.burn issue.1.keyId).1 = some issue.2 := by
  cases hp : link.publish (c.coins seed) s with
  | mk result t =>
    cases result with
    | ok ack =>
      rw [h.acked ack t hp]
      exact .inr (hd.burn hissue)
    | error cause =>
      cases cause with
      | rejected code message =>
        obtain ⟨e, -, hmint⟩ := h.rejected code message t hp
        rw [hmint] at hlists
        exact .inl (hall _ _ _ _ _ hp issue.1 (List.mem_map_of_mem hissue) hlists)
      | transport reason =>
        rw [h.unknown _ t hp fun _ _ hne => by cases hne]
        exact .inr (hd.burn hissue)
      | protocol reason =>
        rw [h.unknown _ t hp fun _ _ hne => by cases hne]
        exact .inr (hd.burn hissue)

/-! ## Batches -/

/-- A batch that cannot be sealed leaves nothing behind. -/
theorem mintBatch_unsealed (hseed : c.nextSeed? now = some seed) (hfresh : c.Fresh seed) (h : ¬c.Sealable seed) :
    ∃ reason d, HoldsSame c d ∧
      ∀ {σ : Type} (link : Link σ) (s : σ), c.mintBatch link now s = (.error (.crypto (.rng reason)), d, s) := by
  obtain ⟨reason, d, stored, hsub, hundone, hmint⟩ := mintBatch_of_not_sealable hseed h
  refine ⟨reason, d, .of_drops hundone.cache hundone.vault fun keyId hk => ?_, hmint⟩
  obtain ⟨coin, hc, rfl⟩ := List.mem_map.1 (hsub hk)
  exact hfresh coin hc

/-- An empty batch is not published. -/
theorem mintBatch_empty (hseed : c.nextSeed? now = some seed) (h : c.coins seed = []) :
    ∃ d, HoldsSame c d ∧
      ∀ {σ : Type} (link : Link σ) (s : σ), c.mintBatch link now s = (.ok (c.report seed), d, s) := by
  have hissued : c.issued seed = [] := List.map_eq_nil_iff.1 h
  have hsealable : c.Sealable seed := by
    unfold Sealable
    rw [hissued]
    exact Crypto.Sealer.seals_zero _
  have hinventory : (c.holding seed).inventory = c.inventory := by
    rw [holding, hissued]
    rfl
  refine ⟨c.holding seed, ?_, fun link s => ?_⟩
  · constructor <;> rw [hinventory]
  · rw [mintBatch_of_sealable hseed hsealable, h]
    rfl

/-- A batch with coins that can be sealed is published when its secrets are there. -/
theorem mintBatch_published (hseed : c.nextSeed? now = some seed) (hfresh : c.Fresh seed) (h : c.Sealable seed)
    (hne : c.coins seed ≠ []) (link : Link σ) (s : σ) : Published link now seed c (c.holding seed) s := by
  refine published_of_call hfresh (holdsMore_holding hfresh h) ?_
  rw [mintBatch_of_sealable hseed h, if_neg fun hempty => hne (List.isEmpty_iff.1 hempty)]

/-- **A batch is minted whole or not at all**, by every client whose vault has nothing under the identifiers of its next
batch: whatever becomes of its publication, the client holds what it held before or the secrets of all its coins on top
of that. A client whose seeds are used up does nothing. -/
theorem mintBatch_atomic (now : UInt64) (c : Client)
    (hfresh : ∀ seed, c.nextSeed? now = some seed → c.Fresh seed) :
    (c.nextSeed? now = none →
      ∀ {σ : Type} (link : Link σ) (s : σ), c.mintBatch link now s = (.error .seedsExhausted, c, s)) ∧
    ∀ seed, c.nextSeed? now = some seed → Atomic now seed c := by
  refine ⟨fun hnone σ link s => ?_, fun seed hseed => ?_⟩
  · rw [mintBatch, hnone]
  have hfresh := hfresh seed hseed
  constructor
  · exact mintBatch_unsealed hseed hfresh
  · exact mintBatch_empty hseed
  · intro h hne
    exact ⟨_, holdsMore_holding hfresh h, mintBatch_published hseed hfresh h hne⟩
  · intro σ link Lists hall s issue hissue hlists
    by_cases h : c.Sealable seed
    · have hne : c.coins seed ≠ [] := fun hnil => List.not_mem_nil (List.map_eq_nil_iff.1 hnil ▸ hissue)
      have hpublished := mintBatch_published hseed hfresh h hne link s
      exact backed_of_published hall (holdsMore_holding hfresh h) hpublished hissue hlists
    · obtain ⟨reason, d, -, hmint⟩ := mintBatch_unsealed hseed hfresh h
      rw [hmint] at hlists
      exact .inl hlists

/-- The secret that was there before the batch stays, through its publication and after it. -/
theorem mintBatch_atomic_keeper :
    (∀ seed, keeper.nextSeed? 7 = some seed → keeper.Fresh seed) ∧ (keeper.coins 7).length = 5 ∧
      skips keeper.batchTries = 10 ∧ (keeper.inventory.vault.burn ⟨7⟩).1 = some [1] ∧ Atomic 7 7 keeper ∧
      ∃ holder, Published .direct 7 7 keeper holder { clock := ⟨0⟩ } ∧
        (∀ issue ∈ keeper.issued 7, (holder.inventory.vault.burn issue.1.keyId).1 = some issue.2) ∧
        (holder.inventory.vault.burn ⟨7⟩).1 = some [1] := by
  have hvault : keeper.inventory.vault = (novice.inventory.vault.store ⟨7⟩ [1]).2 := rfl
  have hnew : ∀ coin ∈ keeper.coins 7, coin.keyId ∉ [(⟨7⟩ : KeyId)] := by decide +kernel
  have hfresh : keeper.Fresh 7 := by
    intro coin hc hin
    rcases (Vault.agreeOff_store ⟨7⟩ [1] novice.inventory.vault).mem hin with hkept | hold
    · exact hnew coin hc hkept
    · exact Vault.not_mem_of_empty rfl hold
  have hseeds : ∀ seed, keeper.nextSeed? 7 = some seed → keeper.Fresh seed := by
    intro seed hseed
    cases hseed
    exact hfresh
  have hlength : (keeper.coins 7).length = 5 := by decide +kernel
  have hsome : keeper.coins 7 ≠ [] := fun hnil => by cases hnil ▸ hlength
  have hsealable : keeper.Sealable 7 := by
    rw [Sealable, hvault, Vault.sealer_store]
    exact fun _ _ => ⟨_, rfl⟩
  have hatomic := (mintBatch_atomic 7 keeper hseeds).2 7 rfl
  have hstored : (novice.inventory.vault.store ⟨7⟩ [1]).1 = .ok () := Vault.store_fst _ _ _
  have hkept : (keeper.inventory.vault.burn ⟨7⟩).1 = some [1] := by
    rw [hvault]
    exact Vault.burn_store hstored
  obtain ⟨holder, hholds, hpublished⟩ := hatomic.published hsealable hsome
  have hoff : (⟨7⟩ : KeyId) ∉ (secrets (keeper.issued 7)).map (·.1) := by
    rw [map_fst_secrets]
    intro hin
    obtain ⟨coin, hc, hkeyId⟩ := List.mem_map.1 hin
    exact hnew coin hc (List.mem_singleton.2 hkeyId)
  refine ⟨hseeds, hlength, by decide +kernel, hkept, hatomic, holder, hpublished .direct _, fun _ => hholds.burn, ?_⟩
  rw [hholds.vault.off.burn hoff]
  exact hkept

end CoinRelay.Client
