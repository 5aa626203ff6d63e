import CoinRelay.Proofs.Client.Minting
import CoinRelay.Proofs.Client.Quantities
import CoinRelay.Proofs.Crypto.Binding

/-!
# A series of batches

The batches of one client, one after the other (`Series`). In between the client may do what it likes but mint, and
others may change what its link leads to. Every batch has a seed beyond those before it (`Series.seeds`), so no
identifier is used twice (`keyIds_never_reused`).

At a broker to which nobody else publishes the user's coins, all listings of the user are under seeds used before
(`UpTo`), and the coins of a batch are valid (`check_of_mem_coins`), so that all of them are accepted
(`Minting.accepted`).
-/

namespace CoinRelay.Client

open Crypto

variable {σ : Type} {c : Client} {seed : UInt64}

/-! ## Valid coins -/

/-- A generated key is some octets in lowercase hexadecimal. -/
theorem publicKey_of_generate {m : KeyMint} {tier : Tier} {pair : KeyPair} (h : (m.generate tier).1 = .ok pair) :
    pair.publicKey ≠ "" ∧ Hex.isLower pair.publicKey := by
  have hsizes : (keySizes tier).1 ≠ 0 := by cases tier <;> decide
  simp only [KeyMint.generate, KeyMint.pairOf] at h
  split at h
  · cases h
  · next publicKey secret _ =>
    split at h
    · next hlength =>
      cases h
      refine ⟨Hex.encode_ne_empty fun hnil => hsizes ?_, Hex.isLower_encode publicKey⟩
      rw [← hlength, hnil]
      rfl
    · cases h

theorem exists_generate_of_mem_tries {slots : List (Tier × UInt16)} {m : KeyMint} {t : Try} (h : t ∈ tries slots m) :
    ∃ m' : KeyMint, t.result = (m'.generate t.slot.1).1 := by
  induction slots generalizing m with
  | nil => cases h
  | cons slot slots ih =>
    rcases List.mem_cons.1 h with rfl | h
    · exact ⟨m, rfl⟩
    · exact ih h

/-- The coins of a batch have keys that the mint gave out, and carry their tags. -/
theorem pair_of_mem_coins {coin : Coin} (h : coin ∈ c.coins seed) :
    ∃ (m : KeyMint) (pair : KeyPair), (m.generate coin.tier).1 = .ok pair ∧ coin.publicKey = pair.publicKey ∧
      coin.signature = Binding.tag coin.publicKey coin.tier := by
  obtain ⟨issue, hissue, rfl⟩ := List.mem_map.1 h
  obtain ⟨⟨slot, result⟩, ht, hsome⟩ := List.mem_filterMap.1 hissue
  obtain ⟨m, hresult⟩ := exists_generate_of_mem_tries ht
  cases result with
  | error e => cases hsome
  | ok pair =>
    cases hsome
    exact ⟨m, pair, hresult.symm, rfl, rfl⟩

/-- The keys of a batch are in hexadecimal. -/
theorem publicKey_of_mem_coins {coin : Coin} (h : coin ∈ c.coins seed) :
    coin.publicKey ≠ "" ∧ Hex.isLower coin.publicKey := by
  obtain ⟨m, pair, hpair, hkey, -⟩ := pair_of_mem_coins h
  rw [hkey]
  exact publicKey_of_generate hpair

/-- A coin of a batch lacks no more than an owner with a name. -/
theorem fault?_of_mem_coins {coin : Coin} (h : coin ∈ c.coins seed) :
    coin.fault? = if c.user = "" then some .emptyOwner else none := by
  obtain ⟨hsome, hlower⟩ := publicKey_of_mem_coins h
  obtain ⟨-, -, -, -, htag⟩ := pair_of_mem_coins h
  rw [← owner_of_mem_coins h]
  exact Binding.fault?_of_tag hsome hlower htag

/-- **The coins of a batch** are valid if the client has a name. -/
theorem check_of_mem_coins (huser : c.user ≠ "") {coin : Coin} (h : coin ∈ c.coins seed) : coin.check = .ok () := by
  rw [Coin.check, fault?_of_mem_coins h, if_neg huser]

/-! ## Series -/

/-- One call for a batch: the client that makes it, what its clock reads and what its link leads to; there is a seed
for it. -/
structure Minting (σ : Type) where
  client : Client
  now : UInt64
  state : σ
  seed : UInt64
  nextSeed : client.nextSeed? now = some seed

namespace Minting

variable (link : Link σ) (m : Minting σ)

/-- What the call comes to. -/
def result : Except ClientError MintReport := (m.client.mintBatch link m.now m.state).1

/-- The client after the call. -/
def after : Client := (m.client.mintBatch link m.now m.state).2.1

/-- What the link leads to after the call. -/
def left : σ := (m.client.mintBatch link m.now m.state).2.2

/-- The identifiers of the keys that are minted. -/
def keyIds : List KeyId := (m.client.coins m.seed).map (·.keyId)

/-- **Whatever a batch comes to**, its seed is used up. -/
theorem after_eq : (m.after link).user = m.client.user ∧ (m.after link).lastSeed = m.seed := by
  unfold after
  by_cases h : m.client.Sealable m.seed
  · rw [mintBatch_of_sealable m.nextSeed h]
    split
    · exact ⟨rfl, rfl⟩
    · unfold publishBatch
      split <;> exact ⟨rfl, rfl⟩
  · obtain ⟨reason, d, stored, -, hundone, hmint⟩ := mintBatch_of_not_sealable m.nextSeed h
    rw [hmint]
    exact ⟨hundone.user, hundone.lastSeed⟩

/-- The identifiers tell the seed. -/
theorem seed_of_mem_keyIds {m : Minting σ} (hfits : m.seed ≤ KeyId.maxSeed) {keyId : KeyId} (h : keyId ∈ m.keyIds) :
    keyId.seed = m.seed :=
  seed_of_mem_slotIds hfits ((keyIds_coins_sublist m.seed m.client).subset h)

end Minting

/-- **The batches of a client**, one after the other. Before and between them the client may change in all but its user
and its last seed, as it does when it sends or reads mail, and what its link leads to may change as `Others` allows. -/
inductive Series (link : Link σ) (Others : σ → σ → Prop) : Client → σ → List (Minting σ) → Prop
  | done (c : Client) (s : σ) : Series link Others c s []
  | meanwhile {c d : Client} {s t : σ} {ms : List (Minting σ)} (user : d.user = c.user)
      (lastSeed : d.lastSeed = c.lastSeed) (others : Others s t) (rest : Series link Others d t ms) :
      Series link Others c s ms
  | batch (m : Minting σ) {ms : List (Minting σ)} (rest : Series link Others (m.after link) (m.left link) ms) :
      Series link Others m.client m.state (m :: ms)

namespace Series

variable {link : Link σ} {Others : σ → σ → Prop} {s : σ} {ms : List (Minting σ)}

/-- **The seeds** of a series increase, from beyond the client's last. -/
theorem seeds (h : Series link Others c s ms) :
    (∀ m ∈ ms, c.lastSeed < m.seed) ∧ (ms.map (·.seed)).Pairwise (· < ·) := by
  induction h with
  | done => exact ⟨fun _ hm => absurd hm List.not_mem_nil, .nil⟩
  | meanwhile _ hlast _ _ ih =>
    rw [← hlast]
    exact ih
  | batch m _ ih =>
    obtain ⟨hbeyond, hpairwise⟩ := ih
    have hfirst := lt_of_nextSeed? m.nextSeed
    rw [(m.after_eq link).2] at hbeyond
    refine ⟨List.forall_mem_cons.2 ⟨hfirst, fun later hm => UInt64.lt_trans hfirst (hbeyond later hm)⟩, ?_⟩
    rw [List.map_cons, List.pairwise_cons]
    exact ⟨List.forall_mem_map.2 hbeyond, hpairwise⟩

/-- **No identifier** is minted twice. -/
theorem nodup_keyIds (h : Series link Others c s ms) (hfits : ∀ m ∈ ms, m.seed ≤ KeyId.maxSeed) :
    (ms.flatMap (·.keyIds)).Nodup := by
  refine List.nodup_flatMap.2 ⟨fun m _ => nodup_keyIds_coins m.seed m.client, ?_⟩
  have hseeds := List.pairwise_map.1 h.seeds.2
  refine hseeds.imp_of_mem fun {m later} hm hlater hlt keyId hk hk' => ?_
  have heq := (Minting.seed_of_mem_keyIds (hfits m hm) hk).symm.trans
    (Minting.seed_of_mem_keyIds (hfits later hlater) hk')
  rw [heq] at hlt
  exact UInt64.lt_irrefl _ hlt

end Series

/-! ## At a broker -/

/-- Others use a broker, and publish no coins of a user. -/
def Elsewhere (user : String) (b b' : Broker) : Prop :=
  ∃ op : Broker.Operation, (∀ coin ∈ op.coins, coin.owner ≠ user) ∧ b' = op.after b

/-- Others may leave a broker alone. -/
theorem Elsewhere.refl (user : String) (b : Broker) : Elsewhere user b b := by
  refine ⟨.count user, fun coin hc => ?_, rfl⟩
  cases hc

/-- A broker lists nothing of a user under a seed beyond one. -/
def UpTo (user : String) (seed : UInt64) (b : Broker) : Prop := ∀ l ∈ b.listings.of user, l.coin.keyId.seed ≤ seed

/-- What others do lists nothing of the user. -/
theorem UpTo.elsewhere {user : String} {b b' : Broker} (h : UpTo user seed b) (helse : Elsewhere user b b') :
    UpTo user seed b' := by
  obtain ⟨op, hothers, rfl⟩ := helse
  intro l hl
  rcases Broker.Operation.mem_listings_after hl with ⟨old, hold, hcoin⟩ | ⟨hmem, hown, -⟩
  · rw [hcoin]
    exact h old hold
  · exact absurd hown (hothers l.coin hmem)

namespace Minting

variable {m : Minting Broker}

/-- A batch is listed under its seed. -/
theorem upTo (hfits : m.seed ≤ KeyId.maxSeed) (h : UpTo m.client.user m.client.lastSeed m.state) :
    UpTo m.client.user m.seed (m.left .direct) := by
  obtain ⟨coins, hsub, -, -, hleft⟩ := of_mintBatch m.now m.client m.state m.nextSeed
  unfold left
  rw [hleft]
  intro l (hl : l ∈ ((Broker.Operation.publish coins).after m.state).listings.of m.client.user)
  rcases Broker.Operation.mem_listings_after hl with ⟨old, hold, hcoin⟩ | ⟨hmem, -⟩
  · rw [hcoin]
    exact UInt64.le_trans (h old hold) (UInt64.le_of_lt (lt_of_nextSeed? m.nextSeed))
  · rw [seed_of_mem_slotIds hfits (hsub.subset (List.mem_map_of_mem hmem))]
    exact UInt64.le_refl _

/-- The broker at hand takes all coins of the batch, and has none of them already. -/
def Accepted (m : Minting Broker) : Prop :=
  ∃ report, m.result .direct = .ok report ∧ report.accepted.toNat = report.minted.sum ∧ report.duplicates = 0

/-- **A batch that can be sealed** is accepted where nothing of the user is listed beyond its last seed. -/
theorem accepted (hfits : m.seed ≤ KeyId.maxSeed) (huser : m.client.user ≠ "")
    (h : UpTo m.client.user m.client.lastSeed m.state) (hsealable : m.client.Sealable m.seed) : m.Accepted := by
  have hsum := (sum_report m.seed m.client).1
  have hpublish : (m.state.publish (m.client.coins m.seed)).1 =
      .ok { accepted := UInt32.ofNat (m.client.coins m.seed).length, duplicates := 0 } := by
    refine Broker.publish_of_new (fun coin hc => check_of_mem_coins huser hc) (nodup_keyIds_coins _ _) ?_
    intro coin hc l hl heq
    rw [owner_of_mem_coins hc] at hl
    have hseed : coin.keyId.seed = m.seed := seed_of_mem_keyIds hfits (List.mem_map_of_mem hc)
    have hle := h l hl
    rw [heq, hseed] at hle
    exact absurd (lt_of_nextSeed? m.nextSeed) (UInt64.not_lt.2 hle)
  unfold Accepted result
  rw [mintBatch_of_sealable m.nextSeed hsealable]
  split
  · next hempty =>
    rw [List.isEmpty_iff] at hempty
    refine ⟨_, rfl, ?_, rfl⟩
    rw [hsum, hempty]
    rfl
  · have hlength := length_coins_lt m.seed m.client
    rw [List.length_map] at hlength
    have hack : (Link.direct.publish (m.client.coins m.seed) m.state).1 =
        .ok { accepted := UInt32.ofNat (m.client.coins m.seed).length, duplicates := 0 } := by
      simp only [Link.direct, hpublish, Except.mapError]
    refine ⟨_, publishBatch_of_ok hack, ?_, rfl⟩
    show (UInt32.ofNat (m.client.coins m.seed).length).toNat = (m.client.report m.seed).minted.sum
    rw [hsum, UInt32.toNat_ofNat']
    exact Nat.mod_eq_of_lt hlength

end Minting

/-- **Every batch of a series** that can be sealed is accepted, if nobody else publishes coins of the user. -/
theorem Series.accepted {user : String} {b : Broker} {ms : List (Minting Broker)}
    (h : Series .direct (Elsewhere user) c b ms) (hfits : ∀ m ∈ ms, m.seed ≤ KeyId.maxSeed) (hname : user ≠ "")
    (huser : c.user = user) (hupTo : UpTo user c.lastSeed b) :
    ∀ m ∈ ms, m.client.Sealable m.seed → m.Accepted := by
  -- Nothing of the user is listed beyond the last seed, before and after each step.
  induction h with
  | done => exact fun _ hm => absurd hm List.not_mem_nil
  | meanwhile hsame hlast helse _ ih =>
    refine ih hfits (hsame.trans huser) ?_
    rw [hlast]
    exact hupTo.elsewhere helse
  | batch m _ ih =>
    obtain ⟨hfirst, hrest⟩ := List.forall_mem_cons.1 hfits
    obtain ⟨hsame, hlast⟩ := m.after_eq .direct
    subst huser
    refine List.forall_mem_cons.2 ⟨Minting.accepted hfirst hname hupTo, ih hrest hsame ?_⟩
    rw [hlast]
    exact Minting.upTo hfirst hupTo

/-! ## Key identifiers -/

/-- **No key identifier is used twice.** In every series of batches of a client, whatever its clock reads, its tables
ask for and becomes of the publications, the seeds increase and all identifiers differ, as long as identifiers hold the
seeds; and every batch that can be sealed tries the keys that are asked for. If the client has a name, the broker at
hand lists nothing under it beyond the client's last seed and nobody else publishes coins under it, all coins of these
batches are accepted. -/
theorem keyIds_never_reused :
    (∀ {σ : Type} {link : Link σ} {Others : σ → σ → Prop} {c : Client} {s : σ} {ms : List (Minting σ)},
      Series link Others c s ms → (∀ m ∈ ms, m.seed ≤ KeyId.maxSeed) → (∀ m ∈ ms, m.client.issuance.Built) →
        (ms.map (·.seed)).Pairwise (· < ·) ∧ (ms.flatMap (·.keyIds)).Nodup ∧
          ∀ m ∈ ms, m.client.Sealable m.seed → Tried link m.now m.seed m.client m.state) ∧
    ∀ {c : Client} {b : Broker} {ms : List (Minting Broker)},
      Series .direct (Elsewhere c.user) c b ms → (∀ m ∈ ms, m.seed ≤ KeyId.maxSeed) → c.user ≠ "" →
        UpTo c.user c.lastSeed b → ∀ m ∈ ms, m.client.Sealable m.seed → m.Accepted := by
  refine ⟨fun {σ link Others c s ms} h hfits hbuilt => ⟨?_, ?_, ?_⟩, fun {c b ms} h hfits hname hupTo => ?_⟩
  · exact h.seeds.2
  · exact h.nodup_keyIds hfits
  · intro m hm hsealable
    exact tried_of_sealable m.nextSeed hsealable (hbuilt m hm) link m.state
  · exact h.accepted hfits hname rfl hupTo

/-- A broker that lists nothing. -/
def desk : Broker := { clock := ⟨0⟩ }

/-- The first batch of a novice, at seven seconds. -/
def debut : Minting Broker := ⟨novice, 7, desk, 7, rfl⟩

/-- The second, when the clock has gone back to three. -/
def sequel : Minting Broker := ⟨{ novice with lastSeed := 7 }, 3, debut.left .direct, 8, rfl⟩

theorem keyIds_never_reused_novice :
    Series .direct (Elsewhere "alice") novice desk [debut, sequel] ∧ [debut, sequel].map (·.seed) = [7, 8] ∧
      ([debut, sequel].flatMap (·.keyIds)).Nodup ∧ ([debut, sequel].flatMap (·.keyIds)).length = 10 ∧
      debut.Accepted ∧ sequel.Accepted := by
  have hseries : Series .direct (Elsewhere "alice") novice desk [debut, sequel] := by
    have hdone : Series .direct (Elsewhere "alice") (sequel.after .direct) (sequel.left .direct) [] := .done _ _
    have hlate := Series.batch sequel hdone
    have huser : sequel.client.user = (debut.after .direct).user := (debut.after_eq .direct).1.symm
    have hlast : sequel.client.lastSeed = (debut.after .direct).lastSeed := (debut.after_eq .direct).2.symm
    have helse : Elsewhere "alice" (debut.left .direct) sequel.state := by
      simp only [sequel]
      exact .refl _ _
    exact Series.batch debut (Series.meanwhile huser hlast helse hlate)
  have hfits : ∀ m ∈ [debut, sequel], m.seed ≤ KeyId.maxSeed := by
    intro m hm
    rcases List.mem_pair.1 hm with rfl | rfl <;> decide
  have hsealable : ∀ m ∈ [debut, sequel], m.client.Sealable m.seed := by
    intro m hm
    rcases List.mem_pair.1 hm with rfl | rfl <;> exact fun _ _ => ⟨_, rfl⟩
  have hbuilt : ∀ m ∈ [debut, sequel], m.client.issuance.Built := by
    intro m hm
    rcases List.mem_pair.1 hm with rfl | rfl <;> exact .default
  have hupTo : UpTo "alice" 0 desk := fun _ hl => by
    rw [show desk.listings.of "alice" = [] from Registry.of_empty "alice"] at hl
    cases hl
  have hunused := keyIds_never_reused.1 hseries hfits hbuilt
  have haccepted := keyIds_never_reused.2 (c := novice) hseries hfits (by decide) hupTo
  refine ⟨hseries, rfl, hunused.2.1, by decide +kernel, ?_, ?_⟩
  · exact haccepted debut List.mem_cons_self (hsealable debut List.mem_cons_self)
  · exact haccepted sequel (by simp) (hsealable sequel (by simp))

end CoinRelay.Client
