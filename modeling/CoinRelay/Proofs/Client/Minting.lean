import CoinRelay.Link.Direct
import CoinRelay.Proofs.Broker.Operation
import CoinRelay.Proofs.Client.Batch

/-!
# Minting at a broker

Minting touches the vault under the identifiers of the batch's slots alone (`Mints`), and every coin that the broker at
hand gets has its secret in the vault (`Backed`), whether the batch fails or not (`of_mintBatch`).
-/

namespace CoinRelay.Client

variable {c d e : Client} {seed : UInt64}

/-! ## What minting touches -/

/-- Minting touches the vault under some identifiers; the cache and the user stay as they are. -/
structure Mints (keyIds : List KeyId) (c d : Client) : Prop where
  user : d.user = c.user
  lastSeed : d.lastSeed = c.lastSeed
  cache : d.inventory.cache = c.inventory.cache
  vault : Vault.AgreeOff keyIds c.inventory.vault d.inventory.vault

namespace Mints

theorem trans {keyIds : List KeyId} (h : Mints keyIds c d) (h' : Mints keyIds d e) : Mints keyIds c e :=
  ⟨h'.user.trans h.user, h'.lastSeed.trans h.lastSeed, h'.cache.trans h.cache, h.vault.trans h'.vault⟩

theorem mono {keyIds more : List KeyId} (h : Mints keyIds c d) (hsub : keyIds ⊆ more) : Mints more c d :=
  ⟨h.user, h.lastSeed, h.cache, h.vault.mono hsub⟩

end Mints

/-- The coins are the client's own, and their secrets are there. -/
def Backed (coins : List Coin) (c : Client) : Prop :=
  ∀ coin ∈ coins, coin.owner = c.user ∧ c.inventory.vault.Opens coin.keyId

theorem Mints.of_undone {keyIds : List KeyId} (h : Undone keyIds c d) : Mints keyIds c d :=
  ⟨h.user, h.lastSeed, h.cache, h.vault.agreeOff⟩

/-! ## Batches -/

/-- Holding a batch touches its identifiers. -/
theorem mints_holding (seed : UInt64) (c : Client) :
    Mints ((c.coins seed).map (·.keyId)) { c with lastSeed := seed } (c.holding seed) := by
  refine ⟨rfl, rfl, rfl, ?_⟩
  rw [← map_fst_secrets]
  exact Vault.agreeOff_storeAll _ _

/-- The secrets of a batch that can be sealed are there. -/
theorem backed_holding (h : c.Sealable seed) : Backed (c.coins seed) (c.holding seed) := by
  intro coin hc
  have howner : coin.owner = c.user := owner_of_mem_coins hc
  refine ⟨howner, ?_⟩
  obtain ⟨issue, hissue, rfl⟩ := List.mem_map.1 hc
  have hburn := Vault.burn_storeAll h.secrets (nodup_fst_secrets seed c) _ (List.mem_map_of_mem hissue)
  exact Option.isSome_iff_exists.2 ⟨_, hburn⟩

/-- A batch is published, or the broker is left as it was and the secrets of the batch are dropped. -/
theorem of_publishBatch (report : MintReport) (coins : List Coin) (c : Client) (b : Broker) :
    (∃ acked, publishBatch .direct report coins c b = (.ok acked, c, (b.publish coins).2)) ∨
      ∃ cause, publishBatch .direct report coins c b =
        (.error cause, { c with inventory := c.inventory.discardSecrets (coins.map (·.keyId)) }, b) := by
  unfold publishBatch
  cases hinvalid : Broker.invalid? coins with
  | some e =>
    refine .inr ⟨.link (Link.rejection e), ?_⟩
    simp only [Link.direct, Broker.publish_of_invalid hinvalid, Except.mapError, Link.rejection]
  | none =>
    cases hp : b.publish coins with
    | mk result b' =>
      cases result with
      | ok ack =>
        refine .inl ⟨{ report with accepted := ack.accepted, duplicates := ack.duplicates }, ?_⟩
        simp only [Link.direct, hp, Except.mapError]
      | error e =>
        rw [Broker.publish, hinvalid] at hp
        cases hp

/-- **A batch** touches the vault under the identifiers of its slots. What the broker gets are coins under some of
them, whose secrets are in the vault; if it fails, that is none. -/
theorem of_mintBatch (now : UInt64) (c : Client) (b : Broker) (hseed : c.nextSeed? now = some seed) :
    ∃ coins : List Coin, (coins.map (·.keyId)).Sublist (slotIds seed (keySlots c.issuance.mint)) ∧
      Mints (slotIds seed (keySlots c.issuance.mint)) { c with lastSeed := seed } (c.mintBatch .direct now b).2.1 ∧
      Backed coins (c.mintBatch .direct now b).2.1 ∧ (c.mintBatch .direct now b).2.2 = (b.publish coins).2 := by
  have hnone : ∀ d : Client, Backed [] d := fun _ coin hc => by cases hc
  have hsub := keyIds_coins_sublist seed c
  by_cases h : c.Sealable seed
  · have hmints := (mints_holding seed c).mono hsub.subset
    rw [mintBatch_of_sealable hseed h]
    split
    · exact ⟨[], List.nil_sublist _, hmints, hnone _, rfl⟩
    · rcases of_publishBatch (c.report seed) (c.coins seed) (c.holding seed) b with ⟨acked, hp⟩ | ⟨cause, hp⟩
      · rw [hp]
        exact ⟨c.coins seed, hsub, hmints, backed_holding h, rfl⟩
      · rw [hp]
        have hdrop := Vault.agreeOff_discardSecrets ((c.coins seed).map (·.keyId)) (c.holding seed).inventory
        exact ⟨[], List.nil_sublist _, hmints.trans ⟨rfl, rfl, rfl, hdrop.mono hsub.subset⟩, hnone _, rfl⟩
  · obtain ⟨reason, d, stored, hstored, hundone, hmint⟩ := mintBatch_of_not_sealable hseed h
    rw [hmint]
    have hmints := (Mints.of_undone hundone).mono (List.Subset.trans hstored hsub.subset)
    exact ⟨[], List.nil_sublist _, hmints, hnone _, rfl⟩

end CoinRelay.Client
