import CoinRelay.Proofs.Broker.WellFormed
import CoinRelay.Proofs.Contact.Replenishment

/-!
# Replenishing a contact's coins from a broker at hand

A broker answers the fetches of an observation from one list, in which the tiers are mixed. Seen from one tier, only the
fetches of that tier count (`Leaves`), so that the contact gets as many coins as it asks for and the broker has, or the
first of each tier over and over (`observe_restocks`).

- `left`, `handed`: what fetches of one tier leave and hand out;
- `Leaves.of_remaining`, `Leaves.trans`: one fetch, and fetches one after the other;
- `transcript_fetch_leaves`, `WellFormed.filter_fetched`: what fetches of several tiers leave, and the coins they bring;
- `TakesOut`, `Marks`: an observation under either way to dispense.
-/

namespace CoinRelay

namespace Broker

variable {d : Dispense} {tier : Tier} {ls ls' : List Listing} {b : Broker} {user : String}

/-! ## One tier -/

/-- The listings of a tier. -/
def ofTier (tier : Tier) (ls : List Listing) : List Listing := ls.filter (·.coin.tier = tier)

/-- A listing whose coin was fetched. -/
def mark (l : Listing) : Listing := { l with dispensed := true }

/-- What a number of fetches leave of the listings of a tier: the first is marked, or as many are taken out. -/
def left (d : Dispense) (n : Nat) (ls : List Listing) : List Listing :=
  match d with
  | .shared => if n = 0 then ls else ls.modifyHead mark
  | .singleUse => ls.drop n

/-- The coins that a number of fetches of a tier hand out: the first as many times, or as many from the front. -/
def handed (d : Dispense) (n : Nat) (ls : List Listing) : List Coin :=
  match d with
  | .shared => ls.head?.elim [] fun l => List.replicate n l.coin
  | .singleUse => (ls.take n).map (·.coin)

theorem left_zero (d : Dispense) (ls : List Listing) : left d 0 ls = ls := by
  cases d <;> rfl

theorem left_add (d : Dispense) (m n : Nat) (ls : List Listing) : left d n (left d m ls) = left d (m + n) ls := by
  cases d with
  | singleUse => exact List.drop_drop
  | shared =>
    cases m with
    | zero => rw [Nat.zero_add]; rfl
    | succ m =>
      cases n with
      | zero => rfl
      | succ n => cases ls <;> rfl

theorem handed_zero (d : Dispense) (ls : List Listing) : handed d 0 ls = [] := by
  cases d with
  | singleUse => rfl
  | shared => cases ls <;> rfl

/-- The first of several fetches hands out the first coin. -/
theorem handed_succ (d : Dispense) (n : Nat) (ls : List Listing) :
    handed d (n + 1) ls = (ls.head?.map (·.coin)).toList ++ handed d n (left d 1 ls) := by
  cases ls with
  | nil => cases d <;> simp [handed, left]
  | cons l ls => cases d <;> rfl

/-! ## Tiers that are mixed -/

/-- What numbers of fetches leave of listings. -/
structure Leaves (d : Dispense) (n : Tier → Nat) (ls ls' : List Listing) : Prop where
  /-- The listings of a tier are left by the fetches of that tier. -/
  tiers : ∀ tier, ofTier tier ls' = left d (n tier) (ofTier tier ls)
  /-- Listings are taken out and those that are left stay in order, -/
  taken : d = .singleUse → ls'.Sublist ls
  /-- or the coins stay as they are. -/
  coins : d = .shared → ls'.map (·.coin) = ls.map (·.coin)

namespace Leaves

variable {m n : Tier → Nat} {ls'' : List Listing}

theorem refl (d : Dispense) (ls : List Listing) : Leaves d (fun _ => 0) ls ls := by
  constructor
  · intro tier
    exact (left_zero d _).symm
  · intro _
    exact .refl ls
  · intro _
    rfl

theorem trans (h : Leaves d m ls ls') (h' : Leaves d n ls' ls'') : Leaves d (fun tier => m tier + n tier) ls ls'' := by
  constructor
  · intro tier
    rw [h'.tiers, h.tiers, left_add]
  · intro hd
    exact (h'.taken hd).trans (h.taken hd)
  · intro hd
    exact (h'.coins hd).trans (h.coins hd)

/-- A fetch of a tier without listings leaves everything. -/
theorem of_forall_ne (h : ∀ l ∈ ls, l.coin.tier ≠ tier) : Leaves d (fun t => if tier = t then 1 else 0) ls ls := by
  constructor
  · intro t
    by_cases ht : tier = t
    · have hnone : ofTier t ls = [] := by
        simpa [ofTier, List.filter_eq_nil_iff, ← ht] using h
      rw [hnone]
      cases d <;> simp [left]
    · rw [if_neg ht, left_zero]
  · intro _
    exact .refl ls
  · intro _
    rfl

/-- **One fetch** leaves the listings of the other tiers alone. -/
theorem of_remaining {before after : List Listing} {l : Listing} (hbefore : ∀ m ∈ before, m.coin.tier ≠ l.coin.tier) :
    Leaves d (fun tier => if l.coin.tier = tier then 1 else 0) (before ++ l :: after)
      (before ++ remaining d l after) := by
  constructor
  · intro tier
    unfold ofTier
    by_cases ht : l.coin.tier = tier
    · have hnone : before.filter (·.coin.tier = tier) = [] := by
        simpa [List.filter_eq_nil_iff, ← ht] using hbefore
      rw [List.filter_append, List.filter_append, hnone, List.filter_cons, if_pos (decide_eq_true ht), if_pos ht]
      cases d with
      | singleUse => rfl
      | shared => simp [remaining, left, mark, ht]
    · simp only [if_neg ht]
      cases d <;> simp [remaining, left, ht]
  · rintro rfl
    exact (List.sublist_cons_self l after).append_left before
  · rintro rfl
    simp [remaining]

end Leaves

/-- **A fetch** hands out the first coin of its tier and leaves the listings of the other tiers alone. -/
theorem fetch_leaves (user : String) (tier : Tier) (b : Broker) :
    (b.fetch user tier).1 = (ofTier tier (b.listings.of user)).head?.map (·.coin) ∧
      Leaves b.config.dispense (fun t => if tier = t then 1 else 0) (b.listings.of user)
        ((b.fetch user tier).2.listings.of user) := by
  rw [ofTier, List.head?_filter]
  cases hfirst : (b.listings.of user).find? (·.coin.tier = tier) with
  | none =>
    have hnone : ∀ l ∈ b.listings.of user, l.coin.tier ≠ tier := by
      simpa [List.find?_eq_none] using hfirst
    rw [fetch_of_forall_ne hnone]
    exact ⟨rfl, .of_forall_ne hnone⟩
  | some l =>
    obtain ⟨htier, before, after, hof, hbefore⟩ := List.find?_eq_some_iff_append.1 hfirst
    have htier : l.coin.tier = tier := of_decide_eq_true htier
    have hbefore : ∀ m ∈ before, m.coin.tier ≠ tier := by
      simpa using hbefore
    rw [fetch_of_append hof hbefore htier, Registry.of_put, if_pos rfl, hof]
    subst htier
    exact ⟨rfl, .of_remaining hbefore⟩

/-! ## Fetches one after the other -/

/-- **Fetches** for a user change the listings of the user and nothing else. -/
theorem WellFormed.transcript_fetch (h : WellFormed b) (user : String) (tiers : List Tier) :
    let b' := (transcript (Link.direct.fetch user) tiers b).2
    WellFormed b' ∧ b' = { b with listings := b.listings.put user (b'.listings.of user) } := by
  intro b'
  have hkept : WellFormed b' ∧ b' = { b with listings := b'.listings } ∧
      ∀ other, other ≠ user → b'.listings.of other = b.listings.of other := by
    refine transcript_induction (P := fun b' => WellFormed b' ∧ b' = { b with listings := b'.listings } ∧
      ∀ other, other ≠ user → b'.listings.of other = b.listings.of other) ?_ tiers ⟨h, rfl, fun _ _ => rfl⟩
    rintro tier c ⟨hc, hrest, hothers⟩
    refine ⟨hc.after (.fetch user tier), ?_, ?_⟩
    · show (c.fetch user tier).2 = { b with listings := (c.fetch user tier).2.listings }
      rcases fetch_cases user tier c with hnone | ⟨before, l, after, -, -, -, hsome⟩
      · rw [hnone]
        exact hrest
      · rw [hsome, hrest]
    · intro other hne
      rw [← hothers other hne]
      exact (of_listings_fetch user tier c other).trans (if_neg hne)
  obtain ⟨hb', hrest, hothers⟩ := hkept
  refine ⟨hb', hrest.trans ?_⟩
  congr 1
  apply hb'.filed.listings.ext (h.filed.listings.put user _)
  intro other
  rw [Registry.of_put]
  split
  · next hu => rw [hu]
  · next hne => exact hothers other hne

/-- Of a broker at hand, every answer is kept. -/
theorem WellFormed.matching?_direct (h : WellFormed b) (user : String) (tier : Tier) :
    Ledger.matching? user (tier, (Link.direct.fetch user tier b).1) = (b.fetch user tier).1 := by
  show Ledger.matching? user (tier, .ok (b.fetch user tier).1) = _
  cases hc : (b.fetch user tier).1 with
  | none => rfl
  | some coin => exact if_pos (h.of_fetch_eq_some hc)

theorem WellFormed.filter_fetch (h : WellFormed b) (user : String) (first tier : Tier) :
    (b.fetch user first).1.toList.filter (·.tier = tier) =
      if first = tier then (b.fetch user first).1.toList else [] := by
  cases hc : (b.fetch user first).1 with
  | none => simp
  | some coin => simp [List.filter_cons, (h.of_fetch_eq_some hc).2]

theorem count_cons_eq (first tier : Tier) (tiers : List Tier) :
    (first :: tiers).count tier = (if first = tier then 1 else 0) + tiers.count tier := by
  rw [List.count_cons, Nat.add_comm]
  simp only [beq_iff_eq]

/-- **Fetches** leave what the numbers of those of each tier leave, in whatever order they are made. -/
theorem transcript_fetch_leaves (user : String) (tiers : List Tier) (b : Broker) :
    Leaves b.config.dispense (fun tier => tiers.count tier) (b.listings.of user)
      ((transcript (Link.direct.fetch user) tiers b).2.listings.of user) := by
  induction tiers generalizing b with
  | nil => exact .refl _ _
  | cons first tiers ih =>
    have hfirst := (fetch_leaves user first b).2
    have hrest := ih (b.fetch user first).2
    rw [config_fetch] at hrest
    simp only [count_cons_eq]
    exact hfirst.trans hrest

/-- **The fetches of a tier** get what the listings of the tier have, whatever is fetched of the other tiers. -/
theorem WellFormed.filter_fetched (h : WellFormed b) (user : String) (tiers : List Tier) (tier : Tier) :
    (Ledger.fetched Link.direct user tiers b).filter (·.tier = tier) =
      handed b.config.dispense (tiers.count tier) (ofTier tier (b.listings.of user)) := by
  induction tiers generalizing b with
  | nil => exact (handed_zero _ _).symm
  | cons first tiers ih =>
    obtain ⟨hanswer, hleaves⟩ := fetch_leaves user first b
    have hrest := ih (h.after (.fetch user first))
    rw [config_after, Operation.after, hleaves.tiers tier] at hrest
    rw [Ledger.fetched_cons, h.matching?_direct, List.filter_append, h.filter_fetch, count_cons_eq]
    refine (congrArg (_ ++ ·) hrest).trans ?_
    by_cases ht : first = tier
    · subst ht
      rw [if_pos rfl, if_pos rfl, Nat.add_comm 1, handed_succ, hanswer]
    · rw [if_neg ht, if_neg ht, Nat.zero_add, left_zero]
      rfl

end Broker

/-! ## Observations -/

namespace Ledger

open Broker

variable {requested obtained : Tier.Counts} {ls rest : List Listing} {coins : List Coin}

/-- Coins that are taken out of listings, and the listings that are left. -/
structure TakesOut (requested obtained : Tier.Counts) (ls rest : List Listing) (coins : List Coin) : Prop where
  /-- As many coins of a tier are obtained as were asked for, or as there are. -/
  number : ∀ tier, (obtained.get tier).toNat = min (requested.get tier).toNat (ofTier tier ls).length
  /-- They are the first of the tier, -/
  taken : ∀ tier, coins.filter (·.tier = tier) = ((ofTier tier ls).take (obtained.get tier).toNat).map (·.coin)
  /-- the others of the tier are left, -/
  left : ∀ tier, ofTier tier rest = (ofTier tier ls).drop (obtained.get tier).toNat
  /-- and all that are left are in order. -/
  order : rest.Sublist ls

/-- Coins that are handed out of listings that stay, and the listings after that. -/
structure Marks (requested obtained : Tier.Counts) (ls rest : List Listing) (coins : List Coin) : Prop where
  /-- As many coins of a tier are obtained as were asked for, if there is one. -/
  number : ∀ tier, obtained.get tier = if ofTier tier ls = [] then 0 else requested.get tier
  /-- All of them are the first of the tier, -/
  first : ∀ coin ∈ coins, (ofTier coin.tier ls).head?.map (·.coin) = some coin
  /-- which is marked if any was asked for, and no other of the tier is, -/
  marked : ∀ tier, ofTier tier rest =
    if requested.get tier = 0 then ofTier tier ls else (ofTier tier ls).modifyHead mark
  /-- and the coins are listed in their order. -/
  order : rest.map (·.coin) = ls.map (·.coin)

/-- A slot gets a coin that it did not have. -/
def Enters (before after : Cache) (slot : Slot) (coin : Coin) : Prop :=
  (∃ e, after.entries[slot]? = some e ∧ e.coin = coin) ∧ ∀ e, before.entries[slot]? = some e → e.coin ≠ coin

theorem takesOut_of_handed (hobtained : ∀ tier, (obtained.get tier).toNat = (coins.filter (·.tier = tier)).length)
    (hleaves : Leaves .singleUse (fun tier => (requested.get tier).toNat) ls rest)
    (hcoins : ∀ tier, coins.filter (·.tier = tier) = handed .singleUse (requested.get tier).toNat (ofTier tier ls)) :
    TakesOut requested obtained ls rest coins := by
  have hmin : ∀ tier, (obtained.get tier).toNat = min (requested.get tier).toNat (ofTier tier ls).length := by
    intro tier
    rw [hobtained, hcoins, handed, List.length_map, List.length_take]
  constructor
  · exact hmin
  · intro tier
    rw [hcoins, hmin, handed, ← List.take_eq_take_min]
  · intro tier
    rw [hleaves.tiers, hmin, Broker.left, ← List.drop_eq_drop_min]
  · exact hleaves.taken rfl

theorem marks_of_handed (hobtained : ∀ tier, (obtained.get tier).toNat = (coins.filter (·.tier = tier)).length)
    (hleaves : Leaves .shared (fun tier => (requested.get tier).toNat) ls rest)
    (hcoins : ∀ tier, coins.filter (·.tier = tier) = handed .shared (requested.get tier).toNat (ofTier tier ls)) :
    Marks requested obtained ls rest coins := by
  constructor
  · intro tier
    apply UInt32.toNat_inj.1
    rw [hobtained, hcoins, handed]
    cases ofTier tier ls <;> simp
  · intro coin hc
    have hin : coin ∈ handed .shared (requested.get coin.tier).toNat (ofTier coin.tier ls) := by
      rw [← hcoins, List.mem_filter]
      exact ⟨hc, decide_eq_true rfl⟩
    unfold handed at hin
    cases hfirst : (ofTier coin.tier ls).head? with
    | none =>
      rw [hfirst] at hin
      cases hin
    | some l =>
      rw [hfirst] at hin
      exact congrArg some (List.eq_of_mem_replicate hin).symm
  · intro tier
    have hzero : (requested.get tier).toNat = 0 ↔ requested.get tier = 0 := UInt32.toNat_inj (b := 0)
    rw [hleaves.tiers, Broker.left]
    simp only [hzero]
  · exact hleaves.coins rfl

/-- **A tier has one coin** to bring into a cache when coins are handed out of listings that stay. -/
theorem Marks.eq_of_enters (h : Marks requested obtained ls rest coins) {c : Cache} {slot other : Slot}
    {coin coin' : Coin} (hcoin : Enters c (c.storeAll coins) slot coin)
    (hcoin' : Enters c (c.storeAll coins) other coin') (htier : coin.tier = coin'.tier) :
    slot = other := by
  have hstored : ∀ slot coin, Enters c (c.storeAll coins) slot coin → coin ∈ coins ∧ coin.slot = slot := by
    rintro slot coin ⟨⟨e, he, rfl⟩, hnew⟩
    rcases Cache.entries_storeAll he with hstored | ⟨old, hold, hsame⟩
    · exact hstored
    · exact absurd hsame (hnew old hold)
  obtain ⟨hin, rfl⟩ := hstored slot coin hcoin
  obtain ⟨hin', rfl⟩ := hstored other coin' hcoin'
  have hfirst := h.first coin hin
  rw [htier, h.first coin' hin'] at hfirst
  cases hfirst
  rfl

/-- An observation at the end of a line that is a broker. -/
structure Restocks (user : String) (requested obtained : Tier.Counts) (i i' : Inventory) (b b' : Broker)
    (coins : List Coin) : Prop where
  /-- Of the broker, the listings of the user change and nothing else. -/
  broker : b' = { b with listings := b.listings.put user (b'.listings.of user) }
  /-- Coins of the user are stored, and nothing else changes in the inventory. -/
  inventory : i' = { i with cache := i.cache.storeAll coins }
  owner_eq : ∀ coin ∈ coins, coin.owner = user
  /-- A broker may take out the coins that it hands out, -/
  takesOut : b.config.dispense = .singleUse →
    TakesOut requested obtained (b.listings.of user) (b'.listings.of user) coins
  /-- or mark them. -/
  marks : b.config.dispense = .shared → Marks requested obtained (b.listings.of user) (b'.listings.of user) coins
  /-- Then no more than one coin of a tier comes into the cache. -/
  once : b.config.dispense = .shared → ∀ slot other coin coin', Enters i.cache i'.cache slot coin →
    Enters i.cache i'.cache other coin' → coin.tier = coin'.tier → slot = other

/-- **An observation** of a user restocks from a well-formed broker. -/
theorem restocks_observe {b : Broker} (h : WellFormed b) (now : UInt64) (user : String) (rate : UInt32) (l : Ledger)
    (i : Inventory) :
    Restocks user (l.issuance.replenish (.ofRate rate)) (l.observe Link.direct now user rate i b).1.obtained i
      (l.observe Link.direct now user rate i b).2.2.1 b (l.observe Link.direct now user rate i b).2.2.2
      (fetched Link.direct user (l.issuance.replenish (.ofRate rate)).each b) := by
  have hinventory := inventory_observe Link.direct now user rate l i b
  have hline := line_observe Link.direct now user rate l i b
  have hnumber : ∀ tier, ((l.observe Link.direct now user rate i b).1.obtained.get tier).toNat =
      ((fetched Link.direct user (l.issuance.replenish (.ofRate rate)).each b).filter (·.tier = tier)).length := by
    intro tier
    rw [← List.countP_eq_length_filter]
    exact (get_obtained _ i b tier).1
  obtain ⟨-, hbroker⟩ := h.transcript_fetch user (l.issuance.replenish (.ofRate rate)).each
  have hleaves := transcript_fetch_leaves user (l.issuance.replenish (.ofRate rate)).each b
  have hcoins := h.filter_fetched user (l.issuance.replenish (.ofRate rate)).each
  simp only [Tier.Counts.count_each, ← hline] at hbroker hleaves hcoins
  constructor
  · exact hbroker
  · exact hinventory
  · intro coin hc
    exact owner_of_mem_fetched hc
  · intro hd
    rw [hd] at hleaves hcoins
    exact takesOut_of_handed hnumber hleaves hcoins
  · intro hd
    rw [hd] at hleaves hcoins
    exact marks_of_handed hnumber hleaves hcoins
  · intro hd slot other coin coin' hcoin hcoin' htier
    rw [hd] at hleaves hcoins
    rw [hinventory] at hcoin hcoin'
    exact (marks_of_handed hnumber hleaves hcoins).eq_of_enters hcoin hcoin' htier

/-- **An observation restocks from what the broker has.** After any inputs to a broker, and with any ledger and any
inventory: if coins are taken out, then as many of each tier as are asked for or as there are, from the front; if they
stay, then the first of each tier over and over, so that no more than one coin of a tier comes into the cache. Nothing
else changes at the broker. -/
theorem observe_restocks (config : Config) (clock : Clock) (inputs : List Input) (now : UInt64) (user : String)
    (rate : UInt32) (l : Ledger) (i : Inventory) :
    let b := receive inputs { config, clock }
    let requested := l.issuance.replenish (.ofRate rate)
    let result := l.observe Link.direct now user rate i b
    b.config = config ∧ Restocks user requested result.1.obtained i result.2.2.1 b result.2.2.2
      (fetched Link.direct user requested.each b) := by
  intro b requested result
  obtain ⟨hconfig, hb, -⟩ := wellFormed_receive config clock inputs
  exact ⟨hconfig, restocks_observe hb now user rate l i⟩

/-- A mate is asked for six silver coins and four bronze ones; of Ada's three coins, one is silver. -/
example :
    let coin (keyId : UInt64) (tier : Tier) : Coin :=
      { owner := "ada", keyId := ⟨keyId⟩, tier, publicKey := "ab", signature := "s" }
    let publish (d : Dispense) : Broker :=
      (Broker.publish [coin 1 .bronze, coin 2 .silver, coin 3 .bronze] { config := { dispense := d }, clock := ⟨0⟩ }).2
    let i : Inventory := .empty 65536 { key := [], nonces := .constant (.ok []) }
    (observe Link.direct 0 "ada" 5 {} i (publish .singleUse)).1.obtained = ⟨0, 1, 2⟩ ∧
      (observe Link.direct 0 "ada" 5 {} i (publish .shared)).1.obtained = ⟨0, 6, 4⟩ := by
  decide +kernel

end Ledger

end CoinRelay
