import CoinRelay.Proofs.Broker.Operation
import Mathlib.Algebra.Order.Group.Multiset

/-!
# Outstanding keys at a broker

A key of a user is outstanding at a broker while its coin is listed or a packet sent with it waits
(`Broker.outstanding`). A coin that is published becomes outstanding, one that is dispensed for single use no longer is;
a packet that is routed makes its key outstanding until it is drained.

- `outstanding_publish`, `outstanding_purge`: at most the coins of the batch come in; a purge brings in none;
- `outstanding_fetch`: what is handed out leaves;
- `outstanding_route`, `outstanding_drain`: packets in and out.
-/

namespace CoinRelay

/-- The identifiers of the coins that a user owns. -/
def Coin.keyIds (user : String) (coins : Multiset Coin) : Multiset KeyId :=
  (coins.filter (·.owner = user)).map (·.keyId)

namespace Coin

theorem keyIds_mono {user : String} {coins others : Multiset Coin} (h : coins ≤ others) :
    keyIds user coins ≤ keyIds user others :=
  Multiset.map_le_map (Multiset.filter_le_filter _ h)

theorem keyIds_cons (user : String) (coin : Coin) (coins : Multiset Coin) :
    keyIds user (coin ::ₘ coins) = (if coin.owner = user then {coin.keyId} else 0) + keyIds user coins := by
  unfold keyIds
  split
  · next h => rw [Multiset.filter_cons_of_pos (p := fun c : Coin => c.owner = user) _ h, Multiset.map_cons, Multiset.singleton_add]
  · next h => rw [Multiset.filter_cons_of_neg (p := fun c : Coin => c.owner = user) _ h, zero_add]

end Coin

namespace Broker

variable {b : Broker} {user other : String}

/-- The keys of a user whose coins are listed or with which waiting packets were sent. -/
def outstanding (user : String) (b : Broker) : Multiset KeyId :=
  ((b.listings.of user).map (·.coin.keyId) : List KeyId) + ((b.mailboxes.of user).map (·.packet.keyId) : List KeyId)

/-! ## What stays -/

theorem config_publish (coins : List Coin) (b : Broker) : (b.publish coins).2.config = b.config := by
  unfold publish
  split <;> rfl

theorem config_fetch (user : String) (tier : Tier) (b : Broker) : (b.fetch user tier).2.config = b.config := by
  unfold fetch
  split <;> rfl

theorem mailboxes_fetch (user : String) (tier : Tier) (b : Broker) :
    (b.fetch user tier).2.mailboxes = b.mailboxes := by
  unfold fetch
  split <;> rfl

theorem config_route (packet : Packet) (b : Broker) : (b.route packet).2.config = b.config := by
  unfold route
  split <;> rfl

theorem config_drain (user : String) (b : Broker) : (b.drain user).2.config = b.config := rfl

/-! ## Listings -/

/-- **Publishing** brings in at most the coins of the batch. -/
theorem outstanding_publish (coins : List Coin) (b : Broker) (user : String) :
    (b.publish coins).2.outstanding user ≤ b.outstanding user + Coin.keyIds user coins := by
  obtain ⟨new, hsub, -, hof⟩ := of_publish coins b user
  have hnew : ((new.map (·.keyId) : List KeyId) : Multiset KeyId) ≤ Coin.keyIds user coins := by
    rw [Coin.keyIds, Multiset.filter_coe, Multiset.map_coe]
    exact Multiset.coe_le.2 (hsub.map _).subperm
  unfold outstanding
  rw [mailboxes_publish, hof, List.map_append, List.map_map, ← Multiset.coe_add, add_right_comm]
  exact add_le_add_right hnew _

/-- **Purging** brings in none. -/
theorem outstanding_purge (now : UInt64) (b : Broker) (user : String) :
    (b.purge now).2.outstanding user ≤ b.outstanding user := by
  have hsub : (((b.purge now).2.listings.of user).map (·.coin.keyId)).Sublist
      ((b.listings.of user).map (·.coin.keyId)) := by
    rw [purge, Registry.of_retain]
    exact List.filter_sublist.map _
  exact add_le_add_left (Multiset.coe_le.2 hsub.subperm) _

/-- **Fetching** for single use takes out what is handed out. -/
theorem outstanding_fetch {tier : Tier} {coin : Coin} (hb : b.config.dispense = .singleUse)
    (h : (b.fetch user tier).1 = some coin) (other : String) :
    (if other = user then {coin.keyId} else 0) + (b.fetch user tier).2.outstanding other = b.outstanding other := by
  obtain ⟨ls, hd, hfetch⟩ := of_fetch h
  obtain ⟨before, l, after, hls, -, hcoin, -, rfl⟩ := dispense?_eq_some hd
  rw [hfetch]
  unfold outstanding
  rw [Registry.of_put]
  split
  · next hu =>
    rw [hu, hls, hb, ← add_assoc, ← hcoin, Multiset.singleton_add, Multiset.cons_coe]
    congr 1
    rw [List.map_append, List.map_append, List.map_cons]
    exact Multiset.coe_eq_coe.2 List.perm_middle.symm
  · exact zero_add _

/-! ## Mailboxes -/

/-- **Routing** brings in the key of the packet. -/
theorem outstanding_route {packet : Packet} (h : (b.route packet).1 = .ok ()) (user : String) :
    (b.route packet).2.outstanding user =
      (if packet.recipient = user then {packet.keyId} else 0) + b.outstanding user := by
  rcases of_route packet b with ⟨e, -, hroute⟩ | ⟨-, hroute⟩
  · rw [hroute] at h
    cases h
  · rw [hroute]
    unfold outstanding
    rw [Registry.of_push]
    by_cases hu : user = packet.recipient
    · rw [if_pos hu, if_pos hu.symm, hu, List.map_append, ← Multiset.coe_add, ← add_assoc]
      exact add_comm _ ({packet.keyId} : Multiset KeyId)
    · rw [if_neg hu, if_neg (Ne.symm hu), zero_add]

/-- Routing puts a packet behind those that wait for its recipient. -/
theorem packets_route {packet : Packet} (h : (b.route packet).1 = .ok ()) (user : String) :
    ((b.route packet).2.mailboxes.of user).map (·.packet) =
      (b.mailboxes.of user).map (·.packet) ++ [packet].filter (·.recipient = user) := by
  rcases of_route packet b with ⟨e, -, hroute⟩ | ⟨-, hroute⟩
  · rw [hroute] at h
    cases h
  · rw [hroute, Registry.of_push]
    by_cases hu : user = packet.recipient
    · simp [hu]
    · simp [hu, Ne.symm hu]

/-- What a drain takes out of the mailbox of each user. -/
def drained (user other : String) (b : Broker) : List Packet := if other = user then (b.drain user).1 else []

/-- A drain takes the first of the packets that wait. -/
theorem of_drain (user other : String) (b : Broker) :
    ∃ taken, b.mailboxes.of other = taken ++ (b.drain user).2.mailboxes.of other ∧
      b.drained user other = taken.map (·.packet) := by
  obtain ⟨taken, hqs, htaken, -⟩ := fill_append Wire.mailboxBudget (b.mailboxes.of user)
  have hof : (b.drain user).2.mailboxes.of other =
      if other = user then (fill Wire.mailboxBudget (b.mailboxes.of user)).2 else b.mailboxes.of other :=
    Registry.of_put ..
  rw [hof, drained]
  by_cases hu : other = user
  · rw [if_pos hu, if_pos hu, hu]
    exact ⟨taken, hqs, htaken⟩
  · rw [if_neg hu, if_neg hu]
    exact ⟨[], rfl, rfl⟩

theorem packets_drain (user other : String) (b : Broker) :
    (b.mailboxes.of other).map (·.packet) =
      b.drained user other ++ ((b.drain user).2.mailboxes.of other).map (·.packet) := by
  obtain ⟨taken, hqs, htaken⟩ := of_drain user other b
  rw [hqs, htaken, List.map_append]

/-- **Draining** takes out the keys of the packets. -/
theorem outstanding_drain (user other : String) (b : Broker) :
    b.outstanding other = ((b.drained user other).map (·.keyId) : List KeyId) + (b.drain user).2.outstanding other := by
  obtain ⟨taken, hqs, htaken⟩ := of_drain user other b
  unfold outstanding
  rw [htaken, List.map_map, add_left_comm, Multiset.coe_add]
  congr 1
  rw [hqs, List.map_append]
  rfl

end Broker

end CoinRelay
