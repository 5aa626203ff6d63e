import CoinRelay.Proofs.Client.Minting
import CoinRelay.Proofs.Relay.Custody
import Mathlib.Algebra.BigOperators.Group.Finset.Basic
import Mathlib.Data.Fintype.Basic
import Mathlib.Data.Multiset.UnionInter

/-!
# Sound relays

In a sound relay (`Relay.Sound`) no key of a user is outstanding twice, be it at the broker or in the caches of the
members, and every key that is outstanding opens in the vault of its user. What one member does touches the keys that
are outstanding at the broker and with that member; the others stay (`Relay.others`).

- `Initial.sound`: a relay is sound at its beginning;
- `Sound.of_passes`, `Sound.of_mints`, `Sound.of_burns`, `Sound.of_broker`: it stays sound when coins are passed on,
  when they are minted, when the secrets of drained packets are burned, and when the broker drops listings.
-/

namespace CoinRelay

open Client

namespace Relay

variable {n : Nat} {r : Relay n} {i : Fin n} {m : Member} {b : Broker} {user : String}

/-! ## Outstanding keys -/

/-- The keys of a user that are outstanding at the broker or with any member. -/
def outstanding (user : String) (r : Relay n) : Multiset KeyId :=
  r.broker.outstanding user + ∑ i, Coin.keyIds user (r.members i).inventory.cache.coins

/-- The keys of a user that are outstanding with any member but one. -/
def others (i : Fin n) (user : String) (r : Relay n) : Multiset KeyId :=
  ∑ j ∈ Finset.univ.erase i, Coin.keyIds user (r.members j).inventory.cache.coins

/-- Outstanding keys are with the broker and one member, or with the others. -/
theorem outstanding_eq (i : Fin n) (user : String) (r : Relay n) :
    r.outstanding user = CoinRelay.outstanding user ((r.members i).inventory, r.broker) + r.others i user := by
  rw [outstanding, ← Finset.add_sum_erase _ _ (Finset.mem_univ i), ← add_assoc]
  rfl

theorem members_replace_self : (r.replace i m b).members i = m := Function.update_self ..

theorem members_replace_of_ne {j : Fin n} (h : j ≠ i) : (r.replace i m b).members j = r.members j :=
  Function.update_of_ne h ..

/-- What holds of the new member and of the others holds of all. -/
theorem forall_members_replace {P : Member → Prop} (hm : P m) (hothers : ∀ j, j ≠ i → P (r.members j)) (j : Fin n) :
    P ((r.replace i m b).members j) := by
  by_cases hj : j = i
  · subst hj
    rw [members_replace_self]
    exact hm
  · rw [members_replace_of_ne hj]
    exact hothers j hj

theorem others_replace : (r.replace i m b).others i user = r.others i user :=
  Finset.sum_congr rfl fun j hj => by rw [members_replace_of_ne (Finset.ne_of_mem_erase hj)]

theorem outstanding_replace :
    (r.replace i m b).outstanding user = CoinRelay.outstanding user (m.inventory, b) + r.others i user := by
  rw [outstanding_eq i, others_replace, members_replace_self]
  rfl

/-- What comes in at the broker and with the member is all that comes in. -/
theorem outstanding_replace_le_add {extra : Multiset KeyId}
    (h : CoinRelay.outstanding user (m.inventory, b) ≤
      CoinRelay.outstanding user ((r.members i).inventory, r.broker) + extra) :
    (r.replace i m b).outstanding user ≤ r.outstanding user + extra := by
  rw [outstanding_replace, outstanding_eq i, add_right_comm]
  exact add_le_add_left h _

theorem outstanding_replace_le
    (h : CoinRelay.outstanding user (m.inventory, b) ≤ CoinRelay.outstanding user ((r.members i).inventory, r.broker)) :
    (r.replace i m b).outstanding user ≤ r.outstanding user := by
  rw [← add_zero (r.outstanding user)]
  exact outstanding_replace_le_add (h.trans_eq (add_zero _).symm)

/-! ## Sound relays -/

/-- No key is outstanding twice, and each one that is outstanding opens in the vault of its user. The seeds behind a
vault are up to the last, which keeps the keys of the next batch apart from those that are outstanding. -/
structure Sound (r : Relay n) : Prop where
  names : Function.Injective fun i => (r.members i).user
  dispense : r.broker.config.dispense = .singleUse
  consistent : ∀ i, (r.members i).inventory.cache.Consistent
  nodup : ∀ user, (r.outstanding user).Nodup
  opens : ∀ i, ∀ keyId ∈ r.outstanding (r.members i).user, (r.members i).inventory.vault.Opens keyId
  seed_le : ∀ i, ∀ keyId ∈ (r.members i).inventory.vault.entries, keyId.seed ≤ (r.members i).client.lastSeed

/-- A relay is sound at its beginning. -/
theorem Initial.sound (h : r.Initial) : r.Sound := by
  have hempty : ∀ user, r.outstanding user = 0 := by
    intro user
    have hcache : ∀ i, Coin.keyIds user (r.members i).inventory.cache.coins = 0 := by
      intro i
      obtain ⟨ceiling, sealer, hi⟩ := h.inventory i
      rw [hi]
      simp [Inventory.empty, Cache.coins, Coin.keyIds]
    simp only [outstanding, hcache, Broker.outstanding, h.listings, h.mailboxes, Registry.of_empty,
      Finset.sum_const_zero]
    rfl
  constructor
  · exact h.names
  · exact h.dispense
  · intro i
    obtain ⟨ceiling, sealer, hi⟩ := h.inventory i
    rw [hi]
    exact .empty ceiling
  · intro user
    rw [hempty]
    exact Multiset.nodup_zero
  · intro i keyId hk
    rw [hempty] at hk
    exact absurd hk (Multiset.notMem_zero keyId)
  · intro i keyId hk
    obtain ⟨ceiling, sealer, hi⟩ := h.inventory i
    rw [hi] at hk
    exact absurd hk (Vault.not_mem_of_empty rfl)

/-! ## What keeps a relay sound -/

namespace Sound

/-- **A step of one member** that adds no key of another user keeps a relay sound if it does so for the member. -/
theorem replace (h : r.Sound) (huser : m.user = (r.members i).user) (hconfig : b.config = r.broker.config)
    (hcache : m.inventory.cache.Consistent)
    (hle : ∀ user, user ≠ m.user → CoinRelay.outstanding user (m.inventory, b) ≤
      CoinRelay.outstanding user ((r.members i).inventory, r.broker))
    (hnodup : ((r.replace i m b).outstanding m.user).Nodup)
    (hopens : ∀ keyId ∈ (r.replace i m b).outstanding m.user, m.inventory.vault.Opens keyId)
    (hseed : ∀ keyId ∈ m.inventory.vault.entries, keyId.seed ≤ m.client.lastSeed) : (r.replace i m b).Sound := by
  have hnames : (fun j => ((r.replace i m b).members j).user) = fun j => (r.members j).user := by
    funext j
    by_cases hj : j = i
    · subst hj
      rw [members_replace_self, huser]
    · rw [members_replace_of_ne hj]
  constructor
  · rw [hnames]
    exact h.names
  · exact (congrArg Broker.Config.dispense hconfig).trans h.dispense
  · exact forall_members_replace (P := fun m => m.inventory.cache.Consistent) hcache fun j _ => h.consistent j
  · intro user
    by_cases hu : user = m.user
    · subst hu
      exact hnodup
    · exact Multiset.nodup_of_le (outstanding_replace_le (hle user hu)) (h.nodup user)
  · apply forall_members_replace (P := fun m' => ∀ keyId ∈ (r.replace i m b).outstanding m'.user,
      m'.inventory.vault.Opens keyId) hopens
    intro j hj keyId hk
    have hne : (r.members j).user ≠ m.user := fun heq => hj (h.names (heq.trans huser))
    exact h.opens j keyId (Multiset.mem_of_le (outstanding_replace_le (hle _ hne)) hk)
  · exact forall_members_replace (P := fun m => ∀ keyId ∈ m.inventory.vault.entries, keyId.seed ≤ m.client.lastSeed)
      hseed fun j _ => h.seed_le j

/-- **Passing coins on** keeps a relay sound. -/
theorem of_passes {sent : List Packet} (h : r.Sound) (huser : m.user = (r.members i).user)
    (hlast : m.client.lastSeed = (r.members i).client.lastSeed)
    (hp : Passes sent ((r.members i).inventory, r.broker) (m.inventory, b)) : (r.replace i m b).Sound := by
  have hvault : m.inventory.vault = (r.members i).inventory.vault := hp.vault
  refine h.replace huser hp.config hp.consistent (fun user _ => hp.outstanding_le user) ?_ ?_ ?_
  · exact Multiset.nodup_of_le (outstanding_replace_le (hp.outstanding_le _)) (h.nodup _)
  · intro keyId hk
    have hk := Multiset.mem_of_le (outstanding_replace_le (hp.outstanding_le _)) hk
    rw [hvault]
    exact h.opens i keyId (huser ▸ hk)
  · rw [hvault, hlast]
    exact h.seed_le i

/-- A key that is outstanding was minted from a seed up to the last. -/
theorem seed_le_of_outstanding (h : r.Sound) {keyId : KeyId} (hk : keyId ∈ r.outstanding (r.members i).user) :
    keyId.seed ≤ (r.members i).client.lastSeed :=
  h.seed_le i keyId (h.opens i keyId hk).mem

/-- Coins that are backed are all the user's. -/
theorem keyIds_of_backed {coins : List Coin} {d : Client} (h : Backed coins d) :
    Coin.keyIds d.user coins = (coins.map (·.keyId) : List KeyId) := by
  rw [Coin.keyIds, Multiset.filter_eq_self.2 fun coin hc => (h coin hc).1, Multiset.map_coe]

theorem keyIds_of_backed_of_ne {coins : List Coin} {d : Client} (h : Backed coins d) (hne : user ≠ d.user) :
    Coin.keyIds user coins = 0 := by
  rw [Coin.keyIds, Multiset.filter_eq_nil.2 fun coin hc heq => hne (heq.symm.trans (h coin hc).1)]
  rfl

/-- **A batch** brings in keys under a later seed, with their secrets. -/
theorem of_mints {seed : UInt64} {keyIds : List KeyId} {coins : List Coin} {d : Client} (h : r.Sound)
    (hlater : (r.members i).client.lastSeed < seed) (hseed : ∀ keyId ∈ keyIds, keyId.seed = seed)
    (hnd : keyIds.Nodup) (hsub : (coins.map (·.keyId)).Sublist keyIds)
    (hmints : Mints keyIds { (r.members i).client with lastSeed := seed } d) (hbacked : Backed coins d) :
    (r.replace i { r.members i with client := d } (r.broker.publish coins).2).Sound := by
  have huser : d.user = (r.members i).user := hmints.user
  have hcache : d.inventory.cache = (r.members i).inventory.cache := hmints.cache
  have hold : ∀ keyId, keyId.seed ≤ (r.members i).client.lastSeed → keyId ∉ keyIds := fun keyId hle hin =>
    absurd (hseed keyId hin ▸ hle) (UInt64.not_le.2 hlater)
  have hle : ∀ user, CoinRelay.outstanding user (d.inventory, (r.broker.publish coins).2) ≤
      CoinRelay.outstanding user ((r.members i).inventory, r.broker) + Coin.keyIds user coins := fun user => by
    have hpublish := Broker.outstanding_publish coins r.broker user
    unfold CoinRelay.outstanding
    rw [hcache, add_right_comm]
    exact add_le_add_left hpublish _
  have hall := outstanding_replace_le_add (m := { r.members i with client := d }) (keyIds_of_backed hbacked ▸ hle d.user)
  -- Nothing comes in for other users; for this one, keys under a seed that no key in the vault has.
  refine h.replace huser (Broker.config_publish coins r.broker) (hcache ▸ h.consistent i) ?_ ?_ ?_ ?_
  · intro user hne
    have hadd := hle user
    rw [keyIds_of_backed_of_ne hbacked hne, add_zero] at hadd
    exact hadd
  · refine Multiset.nodup_of_le hall (Multiset.nodup_add.2 ⟨h.nodup _, hnd.sublist hsub, ?_⟩)
    apply Multiset.disjoint_left.2
    intro keyId hk hin
    exact hold keyId (h.seed_le_of_outstanding (huser ▸ hk)) (hsub.subset hin)
  · intro keyId hk
    rcases Multiset.mem_add.1 (Multiset.mem_of_le hall hk) with hk | hk
    · have hk : keyId ∈ r.outstanding (r.members i).user := huser ▸ hk
      exact hmints.vault.opens (hold keyId (h.seed_le_of_outstanding hk)) (h.opens i keyId hk)
    · obtain ⟨coin, hc, rfl⟩ := List.mem_map.1 hk
      exact (hbacked coin hc).2
  · intro keyId hk
    show keyId.seed ≤ d.lastSeed
    rw [hmints.lastSeed]
    rcases hmints.vault.mem hk with hin | hin
    · exact UInt64.le_of_eq (hseed keyId hin)
    · exact UInt64.le_trans (h.seed_le i keyId hin) (UInt64.le_of_lt hlater)

/-- The keys of the packets that a drain takes out are different, and their secrets are there. -/
theorem keyIds_drain (h : r.Sound) (i : Fin n) :
    ((r.broker.drain (r.members i).user).1.map (·.keyId)).Nodup ∧
      ∀ keyId ∈ (r.broker.drain (r.members i).user).1.map (·.keyId), (r.members i).inventory.vault.Opens keyId := by
  have hle : (((r.broker.drain (r.members i).user).1.map (·.keyId) : List KeyId) : Multiset KeyId) ≤
      r.outstanding (r.members i).user := by
    have hout := Broker.outstanding_drain (r.members i).user (r.members i).user r.broker
    rw [Broker.drained, if_pos rfl] at hout
    rw [outstanding, hout, add_assoc]
    exact Multiset.le_add_right _ _
  exact ⟨Multiset.coe_nodup.1 (Multiset.nodup_of_le hle (h.nodup _)),
    fun keyId hk => h.opens i keyId (Multiset.mem_of_le hle hk)⟩

/-- **Burning** the secrets of the packets that a drain takes out keeps a relay sound. -/
theorem of_burns {inventory : Inventory} (h : r.Sound) (hcache : inventory.cache = (r.members i).inventory.cache)
    (hvault : Vault.AgreeOff ((r.broker.drain (r.members i).user).1.map (·.keyId)) (r.members i).inventory.vault
      inventory.vault) :
    (r.replace i ((r.members i).withInventory inventory) (r.broker.drain (r.members i).user).2).Sound := by
  have hout : ∀ user, CoinRelay.outstanding user ((r.members i).inventory, r.broker) =
      ((r.broker.drained (r.members i).user user).map (·.keyId) : List KeyId) +
        CoinRelay.outstanding user (inventory, (r.broker.drain (r.members i).user).2) := fun user => by
    rw [CoinRelay.outstanding, CoinRelay.outstanding, hcache, ← add_assoc, ← Broker.outstanding_drain]
  have hle : ∀ user, CoinRelay.outstanding user (inventory, (r.broker.drain (r.members i).user).2) ≤
      CoinRelay.outstanding user ((r.members i).inventory, r.broker) := fun user => by
    rw [hout]
    exact Multiset.le_add_left _ _
  have hsplit : r.outstanding (r.members i).user =
      ((r.broker.drain (r.members i).user).1.map (·.keyId) : List KeyId) +
        (r.replace i ((r.members i).withInventory inventory) (r.broker.drain (r.members i).user).2).outstanding
          (r.members i).user := by
    rw [outstanding_eq i, hout, outstanding_replace, add_assoc, Broker.drained, if_pos rfl]
    rfl
  -- No key is outstanding twice, so those that are burned are not among the others.
  have hnodup := h.nodup (r.members i).user
  rw [hsplit, Multiset.nodup_add] at hnodup
  have hconsistent : inventory.cache.Consistent := hcache ▸ h.consistent i
  refine h.replace rfl (Broker.config_drain _ r.broker) hconsistent (fun user _ => hle user) hnodup.2.1 ?_ ?_
  · intro keyId hk
    refine hvault.opens (fun hin => Multiset.disjoint_left.1 hnodup.2.2 hin hk) (h.opens i keyId ?_)
    rw [hsplit]
    exact Multiset.mem_add.2 (.inr hk)
  · intro keyId hk
    rcases hvault.mem hk with hin | hin
    · exact h.seed_le i keyId ((h.keyIds_drain i).2 keyId hin).mem
    · exact h.seed_le i keyId hin

/-- **A broker** at which no key becomes outstanding keeps a relay sound. -/
theorem of_broker (h : r.Sound) (hconfig : b.config = r.broker.config)
    (hle : ∀ user, b.outstanding user ≤ r.broker.outstanding user) : ({ r with broker := b } : Relay n).Sound := by
  have hall : ∀ user, ({ r with broker := b } : Relay n).outstanding user ≤ r.outstanding user := fun user =>
    add_le_add_left (hle user) _
  constructor
  · exact h.names
  · exact (congrArg Broker.Config.dispense hconfig).trans h.dispense
  · exact h.consistent
  · exact fun user => Multiset.nodup_of_le (hall user) (h.nodup user)
  · exact fun i keyId hk => h.opens i keyId (Multiset.mem_of_le (hall _) hk)
  · exact h.seed_le

end Sound

end Relay

end CoinRelay
