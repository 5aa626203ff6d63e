import CoinRelay.Proofs.Broker.Mailbox
import CoinRelay.Proofs.Hex
import CoinRelay.Proofs.Inventory.Indexes
import CoinRelay.Proofs.Inventory.Stock
import CoinRelay.Proofs.Relay.Custody

/-!
# Spending coins on messages

A message takes the first coin of its recipient that it may be sent with, by tier and identifier. Whether the coin is
spent depends on the broker alone: if the broker takes the packet, the coin leaves the cache; if it does not, the coin
stays and is the first again. So a coin is spent once (`send_spends`).

- `Cache.spendable`, `Cache.Consistent.bestOrWeaker?_of_argmin`: the coins for a message, and the choice of one;
- `Cache.Consistent.discard_eq`: a coin that is dropped leaves the others in their order;
- `Spends`, `sends`: a message with a coin, and one without;
- `Step`, `spent_le`: whatever else happens, coins are spent out of those that were in the cache, each once;
- `check_packetOf`, `SpendsAt`: the messages that a broker at hand refuses.
-/

namespace CoinRelay

/-! ## Coins for a message -/

/-- Coins are spent by tier, the strongest first, and by identifier. -/
def Coin.preference (coin : Coin) : Lex (Nat × Nat) := toLex (coin.tier.rank, coin.keyId.word.toNat)

namespace Cache

variable {c : Cache} {owner : String} {tier : Tier} {coin : Coin}

/-- The coins of an owner that a message of a tier may be sent with: those of the tier or weaker. -/
def spendable (owner : String) (tier : Tier) (c : Cache) : List Coin :=
  c.byRecency.filter fun coin => coin.owner = owner ∧ tier.rank ≤ coin.tier.rank

theorem mem_spendable : coin ∈ c.spendable owner tier ↔
    coin ∈ c.byRecency ∧ coin.owner = owner ∧ tier.rank ≤ coin.tier.rank := by
  rw [spendable, List.mem_filter, decide_eq_true_iff]

namespace Consistent

/-- All other coins come after the first: no two have the same identifier. -/
theorem preference_lt (h : c.Consistent) (hcoin : (c.spendable owner tier).argmin Coin.preference = some coin)
    {other : Coin} (ho : other ∈ c.spendable owner tier) (hne : other ≠ coin) : coin.preference < other.preference := by
  have hle : coin.preference ≤ other.preference := List.le_of_mem_argmin ho hcoin
  refine lt_of_le_of_ne hle fun heq => hne ?_
  obtain ⟨hin, hown, -⟩ := mem_spendable.1 (List.argmin_mem hcoin)
  obtain ⟨hin', hown', -⟩ := mem_spendable.1 ho
  have hword : coin.keyId.word.toNat = other.keyId.word.toNat := congrArg (fun p => (ofLex p).2) heq
  have hkeyId : coin.keyId = other.keyId := congrArg KeyId.mk (UInt64.toNat_inj.1 hword)
  refine h.represents.eq_of_slot_eq hin' hin ?_
  rw [Coin.slot, Coin.slot, hown, hown', hkeyId]

/-- The first coin does not depend on when the coins were used. -/
theorem argmin_of_perm (h : c.Consistent) (hcoin : (c.spendable owner tier).argmin Coin.preference = some coin)
    {c' : Cache} (hperm : c'.byRecency.Perm c.byRecency) :
    (c'.spendable owner tier).argmin Coin.preference = some coin := by
  have hsame : ∀ other, other ∈ c'.spendable owner tier ↔ other ∈ c.spendable owner tier := by
    intro other
    rw [mem_spendable, mem_spendable, hperm.mem_iff]
  apply RecencyList.argmin_eq_some_of_lt ((hsame coin).2 (List.argmin_mem hcoin))
  intro other ho hne
  exact h.preference_lt hcoin ((hsame other).1 ho) hne

/-- Without a coin for a message, there is nothing to choose and nothing changes. -/
theorem bestOrWeaker?_of_nil (h : c.Consistent) (hnone : c.spendable owner tier = []) :
    c.bestOrWeaker? owner tier = (none, c) := by
  have hchoice : (c.bestOrWeaker? owner tier).1 = (c.spendable owner tier).argmin Coin.preference :=
    (h.represents.bestOrWeaker? owner tier).1
  rw [hnone, List.argmin_nil] at hchoice
  rw [bestOrWeaker?, Represents.bestOf?_eq] at hchoice ⊢
  rw [Option.map_eq_none_iff.1 hchoice]
  rfl

/-- **The choice** for a message is the first coin, which moves to the end. -/
theorem bestOrWeaker?_of_argmin (h : c.Consistent)
    (hfirst : (c.spendable owner tier).argmin Coin.preference = some coin) :
    ∃ cache, c.bestOrWeaker? owner tier = (some coin, cache) ∧ cache.Consistent ∧
      cache.byRecency = c.byRecency.erase coin ++ [coin] := by
  obtain ⟨hchoice, hrest⟩ := h.represents.bestOrWeaker? owner tier
  have hchoice : (c.bestOrWeaker? owner tier).1 = (c.spendable owner tier).argmin Coin.preference := hchoice
  have hrest : Represents (c.bestOrWeaker? owner tier).2
      (((c.spendable owner tier).argmin Coin.preference).elim _ (RecencyList.use · _)) := hrest
  rw [hfirst] at hchoice hrest
  exact ⟨_, Prod.ext hchoice rfl, ⟨_, hrest⟩, hrest.byRecency_eq⟩

/-- **A coin that is dropped** leaves the others in their order. -/
theorem discard_eq (h : c.Consistent) (hcoin : coin ∈ c.byRecency) :
    (c.discard coin.owner coin.keyId).2.Consistent ∧
      (c.discard coin.owner coin.keyId).2.byRecency = c.byRecency.erase coin := by
  have hrest := (h.represents.discard coin.owner coin.keyId).2
  refine ⟨⟨_, hrest⟩, hrest.byRecency_eq.trans ?_⟩
  rw [h.represents.coins_nodup.erase_eq_filter]
  apply List.filter_congr
  intro other ho
  rw [Bool.eq_iff_iff, bne_iff_ne, decide_eq_true_iff, ← Represents.slot_eq_iff]
  exact not_congr ⟨h.represents.eq_of_slot_eq ho hcoin, fun heq => heq ▸ rfl⟩

end Consistent

end Cache

namespace Client

open Link Wire

variable {σ : Type} {link : Link σ} {c : Client} {s : σ} {recipient text : String} {tier : Tier} {random : Supply UInt8}
  {coin : Coin}

/-! ## One message -/

/-- A client with another cache. -/
def withCache (cache : Cache) (c : Client) : Client := { c with inventory := { c.inventory with cache } }

theorem send_of_exhausted (h : c.inventory.cache.bestOrWeaker? recipient tier = (none, c.inventory.cache)) :
    c.send link recipient text tier random s = (.error (.keyExhausted recipient tier), random, c, s) := by
  simp only [send, Inventory.onCache, h]

/-- A coin is spent if the packet is taken, and kept as the one used last if it is not. -/
theorem send_of_choice {cache : Cache} (h : c.inventory.cache.bestOrWeaker? recipient tier = (some coin, cache)) :
    c.send link recipient text tier random s =
      (match (link.send (packetOf recipient text coin random) s).1 with
      | .error e => (.error (.link e), (random.draw nonceLength).2, c.withCache cache,
          (link.send (packetOf recipient text coin random) s).2)
      | .ok () => (.ok coin.keyId, (random.draw nonceLength).2, c.withCache (cache.discard recipient coin.keyId).2,
          (link.send (packetOf recipient text coin random) s).2)) := by
  simp only [send, Inventory.onCache, h, packetOf]
  cases link.send _ s with
  | mk result s' => cases result <;> rfl

/-- The packet is all that is sent. -/
theorem send_logged {cache : Cache} (h : c.inventory.cache.bestOrWeaker? recipient tier = (some coin, cache))
    (calls : List Call) : c.send link.logged recipient text tier random (calls, s) =
      ((c.send link recipient text tier random s).1, (c.send link recipient text tier random s).2.1,
        (c.send link recipient text tier random s).2.2.1, .send (packetOf recipient text coin random) :: calls,
        (c.send link recipient text tier random s).2.2.2) := by
  rw [send_of_choice h, send_of_choice h]
  simp only [logged, entering]
  cases (link.send (packetOf recipient text coin random) s).1 <;> rfl

/-- A message that is sent with a coin. -/
structure Spends (link : Link σ) (recipient text : String) (tier : Tier) (random : Supply UInt8) (coin : Coin)
    (c : Client) (s : σ) : Prop where
  /-- One packet is sent: to the recipient, with the text, and with the identifier and the tier of the coin. No other
  call is made. -/
  call : ∀ calls, c.send link.logged recipient text tier random (calls, s) =
    ((c.send link recipient text tier random s).1, (c.send link recipient text tier random s).2.1,
      (c.send link recipient text tier random s).2.2.1, .send (packetOf recipient text coin random) :: calls,
      (c.send link recipient text tier random s).2.2.2)
  line : (c.send link recipient text tier random s).2.2.2 = (link.send (packetOf recipient text coin random) s).2
  /-- Of the client, the cache changes and nothing else. -/
  others : (c.send link recipient text tier random s).2.2.1 =
    c.withCache (c.send link recipient text tier random s).2.2.1.inventory.cache
  consistent : (c.send link recipient text tier random s).2.2.1.inventory.cache.Consistent
  /-- If the packet is taken, the coin leaves the cache and the others stay in their order. -/
  taken : (link.send (packetOf recipient text coin random) s).1 = .ok () →
    (c.send link recipient text tier random s).1 = .ok coin.keyId ∧
      (c.send link recipient text tier random s).2.2.1.inventory.cache.byRecency =
        c.inventory.cache.byRecency.erase coin
  /-- If it is not, then the coin stays and is the one used last, and a retry takes it again, with whatever text and on
  whatever line. -/
  kept : ∀ e, (link.send (packetOf recipient text coin random) s).1 = .error e →
    (c.send link recipient text tier random s).1 = .error (.link e) ∧
      (c.send link recipient text tier random s).2.2.1.inventory.cache.byRecency =
        c.inventory.cache.byRecency.erase coin ++ [coin] ∧
      ∀ (other : Link σ) retried random' s', ((c.send link recipient text tier random s).2.2.1.send other.logged
        recipient retried tier random' ([], s')).2.2.2.1 = [.send (packetOf recipient retried coin random')]

/-- **A message** takes the first coin that it may be sent with. -/
theorem spends_of_argmin (h : c.inventory.cache.Consistent)
    (hfirst : (c.inventory.cache.spendable recipient tier).argmin Coin.preference = some coin) :
    Spends link recipient text tier random coin c s := by
  obtain ⟨hin, rfl, -⟩ := Cache.mem_spendable.1 (List.argmin_mem hfirst)
  obtain ⟨cache, hchoice, hcache, hmoved⟩ := h.bestOrWeaker?_of_argmin hfirst
  -- the coin was moved to the end, whence it is taken
  obtain ⟨htaken, horder⟩ := hcache.discard_eq (hmoved ▸ List.mem_append_right _ List.mem_cons_self)
  have hlast : coin ∉ c.inventory.cache.byRecency.erase coin := h.represents.coins_nodup.not_mem_erase
  rw [hmoved, List.erase_append_right _ hlast, List.erase_cons_head, List.append_nil] at horder
  constructor
  · intro calls
    exact send_logged hchoice calls
  · rw [send_of_choice hchoice]
    cases (link.send (packetOf coin.owner text coin random) s).1 <;> rfl
  · rw [send_of_choice hchoice]
    cases (link.send (packetOf coin.owner text coin random) s).1 <;> rfl
  · rw [send_of_choice hchoice]
    cases (link.send (packetOf coin.owner text coin random) s).1 with
    | error e => exact hcache
    | ok => exact htaken
  · intro hok
    rw [send_of_choice hchoice, hok]
    exact ⟨rfl, horder⟩
  · intro e herror
    rw [send_of_choice hchoice, herror]
    refine ⟨rfl, hmoved, ?_⟩
    intro other retried random' s'
    have hperm : cache.byRecency.Perm c.inventory.cache.byRecency := by
      rw [hmoved]
      exact (List.perm_append_singleton coin _).trans (List.perm_cons_erase hin).symm
    obtain ⟨next, hagain, -⟩ := hcache.bestOrWeaker?_of_argmin (h.argmin_of_perm hfirst hperm)
    show ((c.withCache cache).send other.logged coin.owner retried tier random' ([], s')).2.2.2.1 = _
    rw [send_logged hagain]

/-- **A message** is sent with a coin, whatever the line is, or there is none that it may be sent with and nothing
happens. -/
theorem sends (h : c.inventory.cache.Consistent) (recipient : String) (tier : Tier) :
    (c.inventory.cache.spendable recipient tier = [] ∧
        ∀ (σ : Type) (link : Link σ) text random s,
          c.send link recipient text tier random s = (.error (.keyExhausted recipient tier), random, c, s)) ∨
      ∃ coin, (c.inventory.cache.spendable recipient tier).argmin Coin.preference = some coin ∧
        ∀ (σ : Type) (link : Link σ) text random s, Spends link recipient text tier random coin c s := by
  cases hfirst : (c.inventory.cache.spendable recipient tier).argmin Coin.preference with
  | none =>
    have hnone := List.argmin_eq_none.1 hfirst
    exact .inl ⟨hnone, fun _ _ _ _ _ => send_of_exhausted (h.bestOrWeaker?_of_nil hnone)⟩
  | some coin => exact .inr ⟨coin, rfl, fun _ _ _ _ _ => spends_of_argmin h hfirst⟩

/-! ## Messages one after the other -/

/-- What happens to a client while no coin comes into its cache: messages to anyone, calls on the inventory that store
no coin, and whatever happens at the other end of the line. -/
inductive Step (σ : Type)
  | send (recipient text : String) (tier : Tier) (random : Supply UInt8)
  | call (call : InventoryCall) (h : call.storesCoin = false)
  | line (change : σ → σ)

/-- The slot of the coin that a step spends, if any, and what the step leaves. -/
def Step.after (link : Link σ) (step : Step σ) (c : Client) (s : σ) : List Slot × Client × σ :=
  match step with
  | .send recipient text tier random =>
    let (result, _, c, s) := c.send link recipient text tier random s
    ((result.toOption.map fun keyId => { owner := recipient, keyId }).toList, c, s)
  | .call op _ => ([], { c with inventory := (op.make c.inventory).2 }, s)
  | .line change => ([], c, change s)

/-- The slots of the coins that are spent when one step comes after the other. -/
def spent (link : Link σ) : List (Step σ) → Client → σ → List Slot
  | [], _, _ => []
  | step :: steps, c, s =>
    let (slots, c, s) := step.after link c s
    slots ++ spent link steps c s

/-- A message takes its coin out of the cache if it is sent, and no coin if it is not. -/
theorem Spends.perm (hspends : Spends link recipient text tier random coin c s)
    (hin : coin ∈ c.inventory.cache.byRecency) (hown : coin.owner = recipient) :
    (((c.send link recipient text tier random s).1.toOption.map fun keyId => (⟨recipient, keyId⟩ : Slot)).toList ++
        (c.send link recipient text tier random s).2.2.1.inventory.cache.byRecency.map Coin.slot).Perm
      (c.inventory.cache.byRecency.map Coin.slot) := by
  cases hresult : (link.send (packetOf recipient text coin random) s).1 with
  | ok =>
    obtain ⟨hkeyId, horder⟩ := hspends.taken hresult
    rw [hkeyId, horder]
    subst hown
    exact (List.perm_cons_erase hin).symm.map Coin.slot
  | error e =>
    obtain ⟨herror, horder, -⟩ := hspends.kept e hresult
    rw [herror, horder]
    exact ((List.perm_append_singleton coin _).trans (List.perm_cons_erase hin).symm).map Coin.slot

/-- **A step** spends a coin out of the cache, or none. -/
theorem Step.spends (link : Link σ) (step : Step σ) (h : c.inventory.cache.Consistent) (s : σ) :
    (step.after link c s).2.1.inventory.cache.Consistent ∧
      ((step.after link c s).1 : Multiset Slot) + (step.after link c s).2.1.inventory.cache.coins.map Coin.slot ≤
        c.inventory.cache.coins.map Coin.slot := by
  cases step with
  | call call hcall =>
    obtain ⟨hnext, hcoins⟩ := h.coins_make_le hcall
    refine ⟨hnext, ?_⟩
    rw [after, Multiset.coe_nil, zero_add]
    exact Multiset.map_le_map hcoins
  | line change =>
    refine ⟨h, ?_⟩
    rw [after, Multiset.coe_nil, zero_add]
  | send recipient text tier random =>
    rcases sends h recipient tier with ⟨-, hnothing⟩ | ⟨coin, hfirst, hspends⟩
    · rw [after, hnothing]
      exact ⟨h, (zero_add _).le⟩
    · obtain ⟨hin, hown, -⟩ := Cache.mem_spendable.1 (List.argmin_mem hfirst)
      have hspends := hspends σ link text random s
      have hnext := hspends.consistent
      have hslots := Multiset.coe_eq_coe.2 (hspends.perm hin hown)
      rw [← Multiset.coe_add, ← Multiset.map_coe, ← Multiset.map_coe, ← hnext.coins_eq, ← h.coins_eq] at hslots
      exact ⟨hnext, hslots.le⟩

/-- **Coins are spent** out of those that were in the cache, and each once. -/
theorem spent_le (link : Link σ) (steps : List (Step σ)) (h : c.inventory.cache.Consistent) (s : σ) :
    (spent link steps c s : Multiset Slot) ≤ c.inventory.cache.coins.map Coin.slot := by
  induction steps generalizing c s with
  | nil => exact Multiset.zero_le _
  | cons step steps ih =>
    obtain ⟨hnext, hstep⟩ := step.spends link h s
    have hrest := ih hnext (step.after link c s).2.2
    refine le_trans ?_ hstep
    rw [spent, ← Multiset.coe_add]
    exact Multiset.add_le_add_left hrest

/-! ## Messages to a broker at hand -/

/-- A packet for a message has no fault but an empty recipient. -/
theorem fault?_packetOf (recipient text : String) (coin : Coin) (random : Supply UInt8) :
    (packetOf recipient text coin random).fault? = if recipient = "" then some .emptyRecipient else none := by
  have hciphertext : Hex.isLower "" = true := rfl
  have hnonce := Hex.isLower_encode (random.draw nonceLength).1
  by_cases hrecipient : recipient = ""
  · simp [Packet.fault?, packetOf, hrecipient]
  · simp [Packet.fault?, packetOf, hrecipient, hciphertext, hnonce]

theorem check_packetOf (recipient text : String) (coin : Coin) (random : Supply UInt8) :
    (packetOf recipient text coin random).check = .ok () ↔
      ¬(recipient = "" ∨ mailboxBudget < (packetOf recipient text coin random).size) := by
  unfold Packet.check
  rw [fault?_packetOf]
  by_cases hrecipient : recipient = ""
  · simp [hrecipient]
  · by_cases hsize : mailboxBudget < (packetOf recipient text coin random).size <;> simp [hrecipient, hsize]

/-- A message that is sent with a coin to a broker at hand. -/
structure SpendsAt (b : Broker) (recipient text : String) (tier : Tier) (random : Supply UInt8) (coin : Coin)
    (c : Client) : Prop where
  /-- The packet is not taken if it has no recipient or is too large for a mailbox reply, and otherwise it is. -/
  refused_iff : (∃ e, (c.send direct recipient text tier random b).1 = .error e) ↔
    recipient = "" ∨ mailboxBudget < (packetOf recipient text coin random).size
  /-- A broker that does not take it is left as it was. -/
  unchanged : ∀ e, (c.send direct recipient text tier random b).1 = .error e →
    (c.send direct recipient text tier random b).2.2.2 = b

/-- **A broker at hand** refuses messages without a recipient and those that are too large. -/
theorem Spends.atHand {b : Broker} (hspends : Spends direct recipient text tier random coin c b) :
    SpendsAt b recipient text tier random coin c := by
  have hcheck := check_packetOf recipient text coin random
  have hline := hspends.line
  rcases Broker.of_route (packetOf recipient text coin random) b with ⟨e, herror, hroute⟩ | ⟨hok, hroute⟩
  · have hsend : direct.send (packetOf recipient text coin random) b = (.error (rejection (.invalidPacket e)), b) := by
      simp only [direct, hroute, Except.mapError]
    have hrefused : recipient = "" ∨ mailboxBudget < (packetOf recipient text coin random).size := by
      by_contra hfits
      cases herror.symm.trans (hcheck.2 hfits)
    obtain ⟨hresult, -⟩ := hspends.kept _ (congrArg Prod.fst hsend)
    refine ⟨⟨fun _ => hrefused, fun _ => ⟨_, hresult⟩⟩, fun _ _ => ?_⟩
    rw [hline, hsend]
  · have htaken : (direct.send (packetOf recipient text coin random) b).1 = .ok () := by
      simp only [direct, hroute, Except.mapError]
    obtain ⟨hresult, -⟩ := hspends.taken htaken
    have hsent : ∀ e, (c.send direct recipient text tier random b).1 ≠ .error e := by
      intro e he
      cases hresult.symm.trans he
    refine ⟨⟨?_, fun hrefused => absurd hrefused (hcheck.1 hok)⟩, fun e he => absurd he (hsent e)⟩
    rintro ⟨e, he⟩
    exact absurd he (hsent e)

/-- **Coins are spent on messages.** Whatever was done with an inventory before, and whatever is at the other end of the
line: if there is no coin for a message, then nothing happens at all. Otherwise the first one by tier and identifier is
sent with, once, and spent if the packet is taken; a broker at hand takes it unless it has no recipient or is too large.
No coin is spent twice while none is stored. -/
theorem send_spends (link : Link σ) (ceiling : Nat) (sealer : Crypto.Sealer) (made : List InventoryCall)
    (holder : Client) (s : σ) :
    let c : Client := { holder with inventory := (transcript InventoryCall.make made (.empty ceiling sealer)).2 }
    c.inventory.cache.coins = c.inventory.cache.byRecency ∧ (∀ recipient text tier random,
      (c.inventory.cache.spendable recipient tier = [] ∧ ∀ calls,
        c.send link.logged recipient text tier random (calls, s) =
          (.error (.keyExhausted recipient tier), random, c, calls, s)) ∨
      ∃ coin, (c.inventory.cache.spendable recipient tier).argmin Coin.preference = some coin ∧
        Spends link recipient text tier random coin c s ∧ ∀ b, SpendsAt b recipient text tier random coin c) ∧
      ∀ steps, (spent link steps c s).Nodup ∧
        ∀ slot ∈ spent link steps c s, ∃ coin ∈ c.inventory.cache.byRecency, coin.slot = slot := by
  intro c
  have hfitting : c.inventory.cache.Fitting ceiling :=
    transcript_induction (P := fun (i : Inventory) => i.cache.Fitting ceiling) (fun call _ h => h.make call) made
      (.empty ceiling)
  obtain ⟨l, hl, -⟩ := hfitting
  have h : c.inventory.cache.Consistent := ⟨l, hl⟩
  refine ⟨h.coins_eq, ?_, ?_⟩
  · intro recipient text tier random
    rcases sends h recipient tier with ⟨hnone, hnothing⟩ | ⟨coin, hfirst, hspends⟩
    · exact .inl ⟨hnone, fun calls => hnothing _ link.logged text random (calls, s)⟩
    · refine .inr ⟨coin, hfirst, hspends σ link text random s, ?_⟩
      intro b
      exact (hspends Broker direct text random b).atHand
  · intro steps
    have hle := spent_le link steps h s
    rw [h.coins_eq, Multiset.map_coe] at hle
    refine ⟨?_, ?_⟩
    · exact Multiset.coe_nodup.1 (Multiset.nodup_of_le hle (Multiset.coe_nodup.2 h.represents.nodup))
    · intro slot hslot
      exact List.mem_map.1 ((Multiset.coe_le.1 hle).subset hslot)

end Client

end CoinRelay
