import CoinRelay.Client
import CoinRelay.Proofs.Inventory.Storing
import CoinRelay.Proofs.KeyId
import Mathlib.Data.List.Nodup

/-!
# What a batch is made of

A batch tries its slots one after the other (`tries`). Each key that the mint generates becomes a coin with a secret
behind it (`issues`), and the slots whose keys fail are passed over. If the random source gives a nonce for each of the
secrets, minting stores them all (`mintSlots_of_seals`); if not, it fails and the vault keeps what it had
(`mintSlots_of_not_seals`).

- `Client.issued`, `Client.report`, `Client.holding`: the coins and secrets of a client's batch, what is reported of them,
  and the client that has minted them;
- `mintBatch_of_sealable`, `mintBatch_of_not_sealable`: a batch up to its publication.
-/

namespace CoinRelay

open Crypto

/-- A mint with more of its attempts used up. -/
def Crypto.KeyMint.spent (n : Nat) (m : KeyMint) : KeyMint :=
  { attempts := { m.attempts with used := m.attempts.used + n } }

theorem Crypto.KeyMint.spent_spent (m : KeyMint) (k n : Nat) : (m.spent k).spent n = m.spent (k + n) := by
  unfold KeyMint.spent
  simp only [Nat.add_assoc]

namespace Client

variable {c d : Client} {seed : UInt64} {user : String} {slots : List (Tier × UInt16)} {batch : Batch} {σ : Type}

/-! ## Seeds and slots -/

/-- **The next seed** is beyond the last. -/
theorem lt_of_nextSeed? {now : UInt64} (h : c.nextSeed? now = some seed) : c.lastSeed < seed := by
  unfold nextSeed? at h
  split at h
  · next hfits =>
    cases h
    have hbound : c.lastSeed.toNat + 1 < 2 ^ 64 := hfits
    have hsucc : (c.lastSeed + 1).toNat = c.lastSeed.toNat + 1 := by
      rw [UInt64.toNat_add]
      exact Nat.mod_eq_of_lt hbound
    show c.lastSeed < if now ≤ c.lastSeed + 1 then c.lastSeed + 1 else now
    rw [UInt64.lt_iff_toNat_lt]
    split
    · omega
    · next hle =>
      rw [UInt64.le_iff_toNat_le] at hle
      omega
  · cases h

/-- The identifiers of slots under a seed. -/
def slotIds (seed : UInt64) (slots : List (Tier × UInt16)) : List KeyId :=
  slots.map fun slot => KeyId.derive seed slot.1 slot.2

/-- The slots of a batch are all different. -/
theorem nodup_keySlots (quantities : Tier.Counts) : (keySlots quantities).Nodup := by
  unfold keySlots
  refine List.nodup_flatMap.2 ⟨fun tier _ => ?_, ?_⟩
  · refine List.Nodup.map_on (fun i hi j hj heq => ?_) List.nodup_range
    have hi := List.mem_range.1 hi
    have hj := List.mem_range.1 hj
    have hmod : i % 2 ^ 16 = j % 2 ^ 16 := congrArg (fun slot => slot.2.toNat) heq
    have hbound : KeyId.indexesPerTier = 2 ^ 16 := rfl
    omega
  · have htiers : Tier.all.Pairwise (· ≠ ·) := by decide
    refine htiers.imp fun {t u} hne slot ht hu => hne ?_
    obtain ⟨_, _, rfl⟩ := List.mem_map.1 ht
    obtain ⟨_, _, heq⟩ := List.mem_map.1 hu
    exact (congrArg Prod.fst heq).symm

/-- Different slots have different identifiers. -/
theorem nodup_slotIds (seed : UInt64) (h : slots.Nodup) : (slotIds seed slots).Nodup := by
  refine List.Nodup.map (fun s t heq => ?_) h
  obtain ⟨htier, hindex⟩ := KeyId.derive_inj heq
  exact Prod.ext htier hindex

/-- The identifiers of slots tell their seed. -/
theorem seed_of_mem_slotIds (hseed : seed ≤ KeyId.maxSeed) {keyId : KeyId} (h : keyId ∈ slotIds seed slots) :
    keyId.seed = seed := by
  obtain ⟨slot, -, rfl⟩ := List.mem_map.1 h
  exact KeyId.seed_derive hseed _ _

/-! ## Tries -/

/-- A slot, and what the mint gave for it. -/
structure Try where
  slot : Tier × UInt16
  result : Except CryptoError KeyPair

/-- What a mint gives for slots, one after the other. -/
def tries : List (Tier × UInt16) → KeyMint → List Try
  | [], _ => []
  | slot :: slots, m => ⟨slot, (m.generate slot.1).1⟩ :: tries slots (m.spent 1)

theorem map_slot_tries (slots : List (Tier × UInt16)) (m : KeyMint) : (tries slots m).map (·.slot) = slots := by
  induction slots generalizing m with
  | nil => rfl
  | cons slot slots ih => exact congrArg (slot :: ·) (ih _)

/-- The mint gave no key for the slot. -/
def Try.failed (t : Try) : Bool :=
  match t.result with
  | .error _ => true
  | .ok _ => false

/-- The number of slots that are passed over. -/
def skips (ts : List Try) : Nat := ts.countP (·.failed)

/-- The coin of a slot whose key was generated. -/
def coinOf (user : String) (seed : UInt64) (slot : Tier × UInt16) (pair : KeyPair) : Coin :=
  { owner := user, keyId := KeyId.derive seed slot.1 slot.2, tier := slot.1, publicKey := pair.publicKey,
    signature := Binding.tag pair.publicKey slot.1 }

/-- The coins of the slots whose keys were generated, each with the secret behind it. -/
def issues (user : String) (seed : UInt64) (ts : List Try) : List (Coin × Octets) :=
  ts.filterMap fun t => t.result.toOption.map fun pair => (coinOf user seed t.slot pair, pair.secret)

section

variable (user seed) (slot : Tier × UInt16) (e : CryptoError) (pair : KeyPair) (ts : List Try)

theorem issues_error : issues user seed (⟨slot, .error e⟩ :: ts) = issues user seed ts := rfl

theorem issues_ok :
    issues user seed (⟨slot, .ok pair⟩ :: ts) = (coinOf user seed slot pair, pair.secret) :: issues user seed ts := rfl

theorem skips_error : skips (⟨slot, .error e⟩ :: ts) = skips ts + 1 := List.countP_cons_of_pos rfl

theorem skips_ok : skips (⟨slot, .ok pair⟩ :: ts) = skips ts := List.countP_cons_of_neg (by simp [Try.failed])

end

/-- Every slot gives a coin or is passed over. -/
theorem length_issues (user : String) (seed : UInt64) (ts : List Try) :
    (issues user seed ts).length + skips ts = ts.length := by
  induction ts with
  | nil => rfl
  | cons t ts ih =>
    obtain ⟨slot, result⟩ := t
    cases result with
    | error e =>
      rw [issues_error, skips_error, List.length_cons]
      omega
    | ok pair =>
      rw [issues_ok, skips_ok, List.length_cons, List.length_cons]
      omega

/-- The coins are under some of the slots' identifiers, in their order. -/
theorem keyIds_issues_sublist (user : String) (seed : UInt64) (slots : List (Tier × UInt16)) (m : KeyMint) :
    ((issues user seed (tries slots m)).map (·.1.keyId)).Sublist (slotIds seed slots) := by
  induction slots generalizing m with
  | nil => exact .slnil
  | cons slot slots ih =>
    unfold tries
    cases (m.generate slot.1).1 with
    | error e => exact (ih _).cons _
    | ok pair => exact (ih _).cons_cons _

/-- The secrets behind coins, under their identifiers. -/
def secrets (issued : List (Coin × Octets)) : List (KeyId × Octets) :=
  issued.map fun issue => (issue.1.keyId, issue.2)

/-! ## Minting the slots -/

/-- A batch with more coins, the last of them first, and more slots passed over. -/
def Batch.more (coins : List Coin) (skipped : Nat) (batch : Batch) : Batch :=
  { coins := coins.reverse ++ batch.coins, skipped := batch.skipped + skipped }

theorem Batch.more_more (coins coins' : List Coin) (skipped skipped' : Nat) (batch : Batch) :
    (batch.more coins skipped).more coins' skipped' = batch.more (coins ++ coins') (skipped + skipped') := by
  unfold Batch.more
  simp only [List.reverse_append, List.append_assoc, Nat.add_assoc]

/-- The identifiers of the coins of a batch, in the order they were minted. -/
def Batch.keyIds (batch : Batch) : List KeyId := batch.coins.reverse.map (·.keyId)

theorem Batch.keyIds_more (coins : List Coin) (skipped : Nat) (batch : Batch) :
    (batch.more coins skipped).keyIds = batch.keyIds ++ coins.map (·.keyId) := by
  simp [Batch.keyIds, Batch.more]

/-- A client that has used up attempts and stored secrets. -/
def storing (attempts : Nat) (entries : List (KeyId × Octets)) (c : Client) : Client :=
  { c with
    mint := c.mint.spent attempts
    inventory := { c.inventory with vault := c.inventory.vault.storeAll entries } }

theorem storing_storing (m n : Nat) (entries entries' : List (KeyId × Octets)) (c : Client) :
    (c.storing m entries).storing n entries' = c.storing (m + n) (entries ++ entries') := by
  unfold storing Vault.storeAll
  simp only [KeyMint.spent_spent, List.foldl_append]

section

variable {slot : Tier × UInt16} {pair : KeyPair} {e : CryptoError}

/-- A slot whose key fails is passed over. -/
theorem mintOne_of_error (h : (c.mint.generate slot.1).1 = .error e) :
    mintOne seed slot batch c = (.ok (batch.more [] 1), c.storing 1 []) := by
  unfold mintOne
  simp only [h]
  rfl

/-- A key whose secret is stored becomes a coin. -/
theorem mintOne_of_store (h : (c.mint.generate slot.1).1 = .ok pair)
    (hstore : (c.inventory.vault.store (KeyId.derive seed slot.1 slot.2) pair.secret).1 = .ok ()) :
    mintOne seed slot batch c =
      (.ok (batch.more [coinOf c.user seed slot pair] 0),
        c.storing 1 [(KeyId.derive seed slot.1 slot.2, pair.secret)]) := by
  unfold mintOne
  simp only [h, Inventory.onVault, hstore]
  rfl

/-- When a secret cannot be stored, those of the batch are dropped. -/
theorem mintOne_of_store_error (h : (c.mint.generate slot.1).1 = .ok pair)
    (hstore : (c.inventory.vault.store (KeyId.derive seed slot.1 slot.2) pair.secret).1 = .error e) :
    mintOne seed slot batch c =
      (.error e,
        let vault := (c.inventory.vault.store (KeyId.derive seed slot.1 slot.2) pair.secret).2
        { c with
          mint := c.mint.spent 1
          inventory := { c.inventory with vault := vault.discardAll batch.keyIds } }) := by
  unfold mintOne
  simp only [h, Inventory.onVault, hstore, Vault.discardSecrets_eq]
  rfl

end

/-- **When there are nonces** for all secrets of the slots, they are stored, and the coins join the batch. -/
theorem mintSlots_of_seals
    (h : c.inventory.vault.sealer.Seals (issues c.user seed (tries slots c.mint)).length) :
    mintSlots seed slots batch c =
      (.ok (batch.more ((issues c.user seed (tries slots c.mint)).map (·.1)) (skips (tries slots c.mint))),
        c.storing slots.length (secrets (issues c.user seed (tries slots c.mint)))) := by
  -- A slot takes an attempt, and a nonce if its key was generated; what is left of both is for the slots to come.
  induction slots generalizing batch c with
  | nil => rfl
  | cons slot slots ih =>
    unfold tries at h ⊢
    cases hpair : (c.mint.generate slot.1).1 with
    | error e =>
      rw [hpair, issues_error] at h
      rw [mintSlots, mintOne_of_error hpair]
      simp only
      rw [ih h, Batch.more_more, storing_storing, issues_error, skips_error, List.length_cons,
        Nat.add_comm slots.length, Nat.add_comm (skips _)]
      rfl
    | ok pair =>
      rw [hpair, issues_ok, List.length_cons] at h
      obtain ⟨hfirst, hrest⟩ := Sealer.seals_succ.1 h
      obtain ⟨hstore, -⟩ := Vault.store_of_seals hfirst (KeyId.derive seed slot.1 slot.2) pair.secret
      rw [← Vault.sealer_store (KeyId.derive seed slot.1 slot.2) pair.secret] at hrest
      rw [mintSlots, mintOne_of_store hpair hstore]
      simp only
      rw [ih hrest, Batch.more_more, storing_storing, issues_ok, skips_ok, List.length_cons,
        Nat.add_comm slots.length, Nat.zero_add]
      rfl

/-- A client that does not hold some secrets any more, and holds what else it held. -/
structure Undone (keyIds : List KeyId) (c d : Client) : Prop where
  user : d.user = c.user
  lastSeed : d.lastSeed = c.lastSeed
  cache : d.inventory.cache = c.inventory.cache
  vault : Vault.Drops keyIds c.inventory.vault d.inventory.vault

/-- It does not matter what was stored under the identifiers before. -/
theorem Undone.of_storing {keyIds : List KeyId} {attempts : Nat} {entries : List (KeyId × Octets)}
    (h : Undone keyIds (c.storing attempts entries) d) (hsub : entries.map (·.1) ⊆ keyIds) : Undone keyIds c d := by
  have hoff := (Vault.agreeOff_storeAll entries c.inventory.vault).mono hsub
  exact ⟨h.user, h.lastSeed, h.cache, h.vault.of_agreeOff hoff (Vault.burned_storeAll entries _)⟩

/-- **When one has no nonce**, the random source tells why, and the secrets that the slots had stored are dropped with
those of the batch. -/
theorem mintSlots_of_not_seals (batch : Batch)
    (h : ¬c.inventory.vault.sealer.Seals (issues c.user seed (tries slots c.mint)).length) :
    ∃ reason d stored, mintSlots seed slots batch c = (.error (.rng reason), d) ∧
      stored ⊆ (issues c.user seed (tries slots c.mint)).map (·.1.keyId) ∧ Undone (batch.keyIds ++ stored) c d := by
  induction slots generalizing batch c with
  | nil => exact absurd (Sealer.seals_zero _) h
  | cons slot slots ih =>
    unfold tries at h ⊢
    cases hpair : (c.mint.generate slot.1).1 with
    | error e =>
      rw [hpair, issues_error] at h
      obtain ⟨reason, d, stored, hmint, hsub, hundone⟩ := ih (c := c.storing 1 []) (batch.more [] 1) h
      rw [Batch.keyIds_more, List.map_nil, List.append_nil] at hundone
      rw [mintSlots, mintOne_of_error hpair, issues_error]
      exact ⟨reason, d, stored, hmint, hsub, hundone.of_storing (List.nil_subset _)⟩
    | ok pair =>
      rw [hpair, issues_ok, List.length_cons] at h
      rw [issues_ok, List.map_cons, mintSlots]
      by_cases hfirst : c.inventory.vault.sealer.Seals 1
      · -- The secret joins those of the batch, and a later one is the first that has no nonce.
        obtain ⟨hstore, -⟩ := Vault.store_of_seals hfirst (KeyId.derive seed slot.1 slot.2) pair.secret
        have hrest := fun hrest => h (Sealer.seals_succ.2 ⟨hfirst, hrest⟩)
        rw [← Vault.sealer_store (KeyId.derive seed slot.1 slot.2) pair.secret] at hrest
        rw [mintOne_of_store hpair hstore]
        obtain ⟨reason, d, stored, hmint, hsub, hundone⟩ :=
          ih (c := c.storing 1 [(KeyId.derive seed slot.1 slot.2, pair.secret)])
            (batch.more [coinOf c.user seed slot pair] 0) hrest
        rw [Batch.keyIds_more, List.append_assoc] at hundone
        refine ⟨reason, d, _, hmint, List.cons_subset_cons _ hsub, hundone.of_storing ?_⟩
        exact List.subset_append_of_subset_right _ (List.subset_append_left _ _)
      · obtain ⟨reason, hstore, hentries⟩ :=
          Vault.store_of_not_seals hfirst (KeyId.derive seed slot.1 slot.2) pair.secret
        have hkey := (Vault.agreeOff_store (KeyId.derive seed slot.1 slot.2) pair.secret c.inventory.vault).key
        have hburned := c.inventory.vault.burned_store (KeyId.derive seed slot.1 slot.2) pair.secret
        rw [mintOne_of_store_error hpair hstore]
        refine ⟨reason, _, [], rfl, List.nil_subset _, rfl, rfl, rfl, ?_⟩
        rw [List.append_nil]
        exact Vault.AgreeOff.drops ⟨hkey, fun keyId _ => congrArg (·[keyId]?) hentries⟩ hburned

/-! ## The batch of a client -/

/-- What the mint gives for the slots of a client's batch. -/
def batchTries (c : Client) : List Try := tries (keySlots c.issuance.mint) c.mint

/-- The coins of a client's batch, each with the secret behind it. -/
def issued (seed : UInt64) (c : Client) : List (Coin × Octets) := issues c.user seed c.batchTries

/-- The coins of a client's batch. -/
def coins (seed : UInt64) (c : Client) : List Coin := (c.issued seed).map (·.1)

/-- The random source gives a nonce for each secret of the batch. -/
def Sealable (seed : UInt64) (c : Client) : Prop := c.inventory.vault.sealer.Seals (c.issued seed).length

/-- The report of a batch that is not published yet. -/
def report (seed : UInt64) (c : Client) : MintReport :=
  { seed, minted := Tier.Counts.tally ((c.coins seed).map (·.tier)), skipped := UInt32.ofNat (skips c.batchTries) }

/-- The client with the secrets of its batch. -/
def holding (seed : UInt64) (c : Client) : Client :=
  { c with lastSeed := seed }.storing (keySlots c.issuance.mint).length (secrets (c.issued seed))

/-- The coins of a batch have identifiers of their own. -/
theorem keyIds_coins_sublist (seed : UInt64) (c : Client) :
    ((c.coins seed).map (·.keyId)).Sublist (slotIds seed (keySlots c.issuance.mint)) := by
  unfold coins
  rw [List.map_map]
  exact keyIds_issues_sublist c.user seed (keySlots c.issuance.mint) c.mint

theorem nodup_keyIds_coins (seed : UInt64) (c : Client) : ((c.coins seed).map (·.keyId)).Nodup :=
  (nodup_slotIds seed (nodup_keySlots c.issuance.mint)).sublist (keyIds_coins_sublist seed c)

/-- They are the client's own. -/
theorem owner_of_mem_coins {coin : Coin} (h : coin ∈ c.coins seed) : coin.owner = c.user := by
  obtain ⟨issue, hissue, rfl⟩ := List.mem_map.1 h
  obtain ⟨t, -, hsome⟩ := List.mem_filterMap.1 hissue
  obtain ⟨pair, -, rfl⟩ := Option.map_eq_some_iff.1 hsome
  rfl

theorem map_fst_secrets (seed : UInt64) (c : Client) :
    (secrets (c.issued seed)).map (·.1) = (c.coins seed).map (·.keyId) := by
  unfold secrets coins
  rw [List.map_map, List.map_map]
  rfl

theorem nodup_fst_secrets (seed : UInt64) (c : Client) : ((secrets (c.issued seed)).map (·.1)).Nodup := by
  rw [map_fst_secrets]
  exact nodup_keyIds_coins seed c

theorem Sealable.secrets (h : c.Sealable seed) :
    c.inventory.vault.sealer.Seals (Client.secrets (c.issued seed)).length := by
  unfold Client.secrets
  rw [List.length_map]
  exact h

/-- **A batch that can be sealed** is published by a client that holds its secrets, unless it is empty. -/
theorem mintBatch_of_sealable {now : UInt64} (hseed : c.nextSeed? now = some seed) (h : c.Sealable seed)
    (link : Link σ) (s : σ) :
    c.mintBatch link now s =
      if (c.coins seed).isEmpty then (.ok (c.report seed), c.holding seed, s)
      else publishBatch link (c.report seed) (c.coins seed) (c.holding seed) s := by
  have hmint : mintSlots seed (keySlots c.issuance.mint) {} { c with lastSeed := seed } =
      (.ok { coins := (c.coins seed).reverse, skipped := skips c.batchTries }, c.holding seed) := by
    rw [mintSlots_of_seals (c := { c with lastSeed := seed }) h, Batch.more, List.append_nil, Nat.zero_add]
    rfl
  unfold mintBatch
  simp only [hseed, hmint, List.reverse_reverse]
  rfl

/-- **A batch that cannot be sealed** fails before it is published, and its secrets are dropped. -/
theorem mintBatch_of_not_sealable {now : UInt64} (hseed : c.nextSeed? now = some seed) (h : ¬c.Sealable seed) :
    ∃ reason d stored, stored ⊆ (c.coins seed).map (·.keyId) ∧ Undone stored { c with lastSeed := seed } d ∧
      ∀ {σ : Type} (link : Link σ) (s : σ), c.mintBatch link now s = (.error (.crypto (.rng reason)), d, s) := by
  obtain ⟨reason, d, stored, hmint, hsub, hundone⟩ :=
    mintSlots_of_not_seals (c := { c with lastSeed := seed }) {} h
  refine ⟨reason, d, stored, ?_, hundone, fun link s => ?_⟩
  · unfold coins
    rw [List.map_map]
    exact hsub
  · unfold mintBatch
    simp only [hseed, hmint]

/-- A batch that is acknowledged is reported with the counts of the acknowledgement. -/
theorem publishBatch_of_ok {link : Link σ} {report : MintReport} {coins : List Coin} {s : σ} {ack : Wire.PublishAck}
    (h : (link.publish coins s).1 = .ok ack) :
    (publishBatch link report coins c s).1 =
      .ok { report with accepted := ack.accepted, duplicates := ack.duplicates } := by
  unfold publishBatch
  cases hp : link.publish coins s with
  | mk result t =>
    rw [hp] at h
    cases h
    rfl

/-- A client whose mint has keys for the lowest tier alone. -/
def novice : Client where
  user := "alice"
  mint := { attempts := .constant fun _ => .ok (List.replicate 32 0, List.replicate 32 1) }
  inventory := .empty defaultCeiling { key := List.replicate 32 2, nonces := .constant (.ok (List.replicate 12 3)) }

/-- The novice with a secret under an identifier of its own. -/
def keeper : Client := { novice with inventory := (novice.inventory.onVault (·.store ⟨7⟩ [1])).2 }

end Client

end CoinRelay
