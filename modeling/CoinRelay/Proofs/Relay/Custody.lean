import CoinRelay.Proofs.Broker.Outstanding
import CoinRelay.Proofs.Contact.Holdings
import CoinRelay.Proofs.Inventory.Coins
import CoinRelay.Proofs.Relay.System

/-!
# Passing coins on

Seen from one member, a key of a user is outstanding while its coin is listed or in the member's own cache, or while a
packet sent with it waits (`outstanding`). Whatever a member does but mint and check its mail passes coins from the
broker to its cache and on into packets, or drops them: no key becomes outstanding (`Passes`).

- `Passes.onCache`: operations of the cache that add no coin;
- `passes_fetchOne`, `passes_observe`, `passes_collectIdle`, `passes_collect?`: what a ledger does;
- `passes_send`: a message, and the one packet that it sends.
-/

namespace CoinRelay

open Link

/-- The keys of a user that are outstanding at a broker or in an inventory. -/
def outstanding (user : String) (s : Inventory × Broker) : Multiset KeyId :=
  s.2.outstanding user + Coin.keyIds user s.1.cache.coins

/-- From one state to another, some packets were sent and no key became outstanding. The vault stays as it is. -/
structure Passes (sent : List Packet) (s t : Inventory × Broker) : Prop where
  consistent : t.1.cache.Consistent
  vault : t.1.vault = s.1.vault
  config : t.2.config = s.2.config
  packets : ∀ user, (t.2.mailboxes.of user).map (·.packet) =
    (s.2.mailboxes.of user).map (·.packet) ++ sent.filter (·.recipient = user)
  outstanding_le : ∀ user, outstanding user t ≤ outstanding user s

namespace Passes

variable {s t u : Inventory × Broker} {sent : List Packet}

theorem refl (h : s.1.cache.Consistent) : Passes [] s s where
  consistent := h
  vault := rfl
  config := rfl
  packets _ := (List.append_nil _).symm
  outstanding_le _ := le_rfl

theorem trans (h : Passes [] s t) (h' : Passes sent t u) : Passes sent s u where
  consistent := h'.consistent
  vault := h'.vault.trans h.vault
  config := h'.config.trans h.config
  packets user := by rw [h'.packets, h.packets, List.filter_nil, List.append_nil]
  outstanding_le user := (h'.outstanding_le user).trans (h.outstanding_le user)

/-- An operation of the cache that adds no coin. -/
theorem onCache {α : Type} {f : Cache → α × Cache} {i : Inventory} (b : Broker)
    (h : (f i.cache).2.Consistent ∧ (f i.cache).2.coins ≤ i.cache.coins) : Passes [] (i, b) ((i.onCache f).2, b) where
  consistent := h.1
  vault := rfl
  config := rfl
  packets _ := (List.append_nil _).symm
  outstanding_le _ := add_le_add_right (Coin.keyIds_mono h.2) _

end Passes

/-! ## Ledgers -/

section Ledgers

variable {i : Inventory} {b : Broker} {user : String} {tier : Tier}

theorem fetchOne_of_none (h : (b.fetch user tier).1 = none) : Ledger.fetchOne direct user tier i b = (false, i, b) := by
  have hb := Broker.fetch_eq_none h
  simp only [Ledger.fetchOne, direct, h, hb]

theorem fetchOne_of_some {coin : Coin} (h : (b.fetch user tier).1 = some coin) :
    Ledger.fetchOne direct user tier i b =
      if coin.owner = user ∧ coin.tier = tier then
        (true, (i.onCache (·.store coin)).2, (b.fetch user tier).2)
      else (false, i, (b.fetch user tier).2) := by
  simp only [Ledger.fetchOne, direct, h]

/-- A coin that was fetched is lost, or put into the cache. -/
theorem passes_of_fetch {coin : Coin} {i' : Inventory} (hb : b.config.dispense = .singleUse)
    (hc : (b.fetch user tier).1 = some coin) (hcache : i'.cache.Consistent) (hvault : i'.vault = i.vault)
    (hcoins : i'.cache.coins ≤ i.cache.coins ∨ coin.owner = user ∧ i'.cache.coins ≤ coin ::ₘ i.cache.coins) :
    Passes [] (i, b) (i', (b.fetch user tier).2) := by
  constructor
  · exact hcache
  · exact hvault
  · exact Broker.config_fetch user tier b
  · intro other
    rw [Broker.mailboxes_fetch, List.filter_nil, List.append_nil]
  · intro other
    have hout := Broker.outstanding_fetch hb hc other
    show (b.fetch user tier).2.outstanding other + Coin.keyIds other i'.cache.coins ≤
      b.outstanding other + Coin.keyIds other i.cache.coins
    rw [← hout, add_comm (ite ..), add_assoc]
    refine add_le_add_right ?_ _
    rcases hcoins with hle | ⟨rfl, hle⟩
    · exact (Coin.keyIds_mono hle).trans (Multiset.le_add_left _ _)
    · refine (Coin.keyIds_mono hle).trans_eq ?_
      rw [Coin.keyIds_cons]
      simp only [eq_comm]

/-- **A fetch** moves a coin of the user from the broker into the cache, or loses it. -/
theorem passes_fetchOne (user : String) (tier : Tier) (h : i.cache.Consistent) (hb : b.config.dispense = .singleUse) :
    Passes [] (i, b) (Ledger.fetchOne direct user tier i b).2 := by
  cases hc : (b.fetch user tier).1 with
  | none =>
    rw [fetchOne_of_none hc]
    exact .refl h
  | some coin =>
    rw [fetchOne_of_some hc]
    split
    · next hmatch =>
      obtain ⟨hcache, hcoins⟩ := h.store coin
      exact passes_of_fetch hb hc hcache rfl (.inr ⟨hmatch.1, hcoins⟩)
    · exact passes_of_fetch hb hc h rfl (.inl le_rfl)

/-- Fetches of all tiers, one after the other. -/
theorem passes_fetchAll (user : String) (requested : Tier.Counts) (h : i.cache.Consistent)
    (hb : b.config.dispense = .singleUse) : Passes [] (i, b) (Ledger.fetchAll direct user requested i b).2 := by
  refine Ledger.fetchAll_induction (P := fun j c => Passes [] (i, b) (j, c)) ?_ requested (.refl h)
  intro tier j c hpasses
  exact hpasses.trans (passes_fetchOne user tier hpasses.consistent (hpasses.config ▸ hb))

/-- **An observation** passes coins on. -/
theorem passes_observe (now : UInt64) (user : String) (rate : UInt32) (l : Ledger) (h : i.cache.Consistent)
    (hb : b.config.dispense = .singleUse) : Passes [] (i, b) (l.observe direct now user rate i b).2.2 := by
  have hall := passes_fetchAll user (l.issuance.replenish (.ofRate rate)) h hb
  rw [Ledger.observe]
  revert hall
  simp only
  obtain ⟨obtained, i', b'⟩ := Ledger.fetchAll direct user (l.issuance.replenish (.ofRate rate)) i b
  exact id

/-- Making a stranger of a contact drops coins. -/
theorem passes_demote (user : String) (l : Ledger) (h : i.cache.Consistent) :
    Passes [] (i, b) ((l.demote user i).2.2, b) :=
  .onCache b (h.purge user)

/-- **A collection** drops coins. -/
theorem passes_collectIdle (now : UInt64) (maxIdle : Nat) (l : Ledger) (h : i.cache.Consistent) :
    Passes [] (i, b) ((l.collectIdle now maxIdle i).2.2, b) := by
  refine Ledger.collectIdle_induction (P := fun _ j => Passes [] (i, b) (j, b)) ?_ now maxIdle (.refl h)
  intro user l j hpasses
  exact hpasses.trans (passes_demote user l hpasses.consistent)

/-- **The collection** of one contact drops coins, if there is such a contact. -/
theorem passes_collect? (user : String) (l : Ledger) (h : i.cache.Consistent) :
    Passes [] (i, b) ((l.collect? user i).2.2, b) := by
  unfold Ledger.collect?
  split
  · exact passes_demote user l h
  · exact .refl h

end Ledgers

/-! ## Messages -/

/-- The packet of a text that is sent with a coin. -/
def packetOf (recipient text : String) (coin : Coin) (random : Supply UInt8) : Packet :=
  { recipient, keyId := coin.keyId, tier := coin.tier, ciphertext := "", payload := text,
    nonce := Hex.encode (random.draw Client.nonceLength).1 }

section Messages

variable {c : Client} {b : Broker} {recipient text : String} {tier : Tier} {random : Supply UInt8}

theorem send_of_none {i : Inventory} (h : c.inventory.onCache (·.bestOrWeaker? recipient tier) = (none, i)) :
    c.send direct.logged recipient text tier random ([], b) =
      (.error (.keyExhausted recipient tier), random, { c with inventory := i }, [], b) := by
  simp only [Client.send, h]

theorem send_of_some {coin : Coin} {i : Inventory}
    (h : c.inventory.onCache (·.bestOrWeaker? recipient tier) = (some coin, i)) :
    c.send direct.logged recipient text tier random ([], b) =
      (match b.route (packetOf recipient text coin random) with
      | (.error e, b) =>
        (.error (.link (rejection e)), (random.draw Client.nonceLength).2, { c with inventory := i },
          [.send (packetOf recipient text coin random)], b)
      | (.ok (), b) =>
        (.ok coin.keyId, (random.draw Client.nonceLength).2,
          { c with inventory := (i.onCache (·.discard recipient coin.keyId)).2 },
          [.send (packetOf recipient text coin random)], b)) := by
  simp only [Client.send, h, logged, entering, direct, packetOf]
  cases b.route _ with
  | mk result b' => cases result <;> rfl

/-- A message that is sent is one packet for the recipient, with the text, under the key that is answered. -/
theorem packets_of_sent {keyId : KeyId}
    (h : (c.send direct.logged recipient text tier random ([], b)).1 = .ok keyId) :
    ∃ packet : Packet,
      (c.send direct.logged recipient text tier random ([], b)).2.2.2.1.filterMap Call.packet? = [packet] ∧
      packet.recipient = recipient ∧ packet.payload = text ∧ packet.keyId = keyId := by
  cases hc : c.inventory.onCache (·.bestOrWeaker? recipient tier) with
  | mk choice i =>
    cases choice with
    | none =>
      rw [send_of_none hc] at h
      cases h
    | some coin =>
      rw [send_of_some hc] at h ⊢
      cases hr : b.route (packetOf recipient text coin random) with
      | mk result b' =>
        rw [hr] at h
        cases result <;> cases h
        exact ⟨packetOf recipient text coin random, rfl, rfl, rfl, rfl⟩

/-- **A message** spends the coin it is sent with: from the cache, its key passes into the packet. -/
theorem passes_route {coin : Coin} {i : Inventory} (h : i.cache.Consistent) (hc : coin ∈ i.cache.coins)
    (hown : coin.owner = recipient) (hroute : (b.route (packetOf recipient text coin random)).1 = .ok ()) :
    Passes [packetOf recipient text coin random] (i, b)
      ((i.onCache (·.discard recipient coin.keyId)).2, (b.route (packetOf recipient text coin random)).2) := by
  subst hown
  obtain ⟨hcache, hcoins⟩ := h.discard_of_mem hc
  constructor
  · exact hcache
  · rfl
  · exact Broker.config_route _ b
  · exact Broker.packets_route hroute
  · intro user
    have hout := Broker.outstanding_route hroute user
    show (b.route _).2.outstanding user + Coin.keyIds user (i.cache.discard coin.owner coin.keyId).2.coins ≤ _
    rw [hout, add_right_comm, add_comm]
    exact add_le_add_right ((Coin.keyIds_cons user coin _).symm.trans_le (Coin.keyIds_mono hcoins)) _

/-- **A message** that is sent is one packet for the recipient. -/
theorem passes_send (c : Client) (b : Broker) (recipient text : String) (tier : Tier) (random : Supply UInt8)
    (h : c.inventory.cache.Consistent) :
    ∃ result random' inventory calls b' sent,
      c.send direct.logged recipient text tier random ([], b) = (result, random', { c with inventory }, calls, b') ∧
      Passes sent (c.inventory, b) (inventory, b') ∧
      ∀ user, sent.filter (·.recipient = user) = Event.sentTo user [.ofSend recipient result calls] := by
  obtain ⟨hcoin, hcache, hcoins⟩ := h.bestOrWeaker recipient tier
  have hchoice : Passes [] (c.inventory, b) ((c.inventory.onCache (·.bestOrWeaker? recipient tier)).2, b) :=
    .onCache b ⟨hcache, hcoins.le⟩
  cases hb : c.inventory.onCache (·.bestOrWeaker? recipient tier) with
  | mk choice i =>
    have hi : (c.inventory.onCache (·.bestOrWeaker? recipient tier)).2 = i := by rw [hb]
    have hchosen : (c.inventory.cache.bestOrWeaker? recipient tier).1 = choice := congrArg Prod.fst hb
    have hmem : i.cache.coins = c.inventory.cache.coins := hi ▸ hcoins
    rw [hi] at hchoice
    cases choice with
    | none => exact ⟨_, _, _, _, _, [], send_of_none hb, hchoice, fun _ => rfl⟩
    | some coin =>
      obtain ⟨hin, hown⟩ := hcoin coin hchosen
      rw [← hmem] at hin
      have hroute := fun (hok : (b.route (packetOf recipient text coin random)).1 = .ok ()) =>
        passes_route hchoice.consistent hin hown hok
      rw [send_of_some hb]
      cases hr : b.route (packetOf recipient text coin random) with
      | mk result b' =>
        rw [hr] at hroute
        cases result with
        | error e =>
          have hb' : b' = b := by
            rcases Broker.of_route (packetOf recipient text coin random) b with ⟨_, -, heq⟩ | ⟨-, heq⟩ <;>
              rw [hr] at heq <;> cases heq
            rfl
          exact ⟨_, _, _, _, _, [], rfl, hb' ▸ hchoice, fun _ => rfl⟩
        | ok =>
          refine ⟨_, _, _, _, _, _, rfl, hchoice.trans (hroute rfl), ?_⟩
          intro user
          simp [Event.ofSend, Event.sentTo, Call.packet?, packetOf, List.filter_cons]

end Messages

end CoinRelay
