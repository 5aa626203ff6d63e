import CoinRelay.Link.Direct
import CoinRelay.Proofs.Contact.Holdings

/-!
# Collections of idle contacts

A collection passes over a contact that is a stranger and is counted without coins. As no more coins are cached than are
counted, such a contact has none to lose: a collection is complete. It is harmless as well, to the contacts that are not
idle for too long and to the coins of all others (`collectIdle_complete`).

- `Demotes`, `demotes_demoteAll`: what becomes of contacts and coins when strangers are made of several users;
- `settle`, `contacts_collectIdle`: what becomes of each contact;
- `Covers.mem_idleUsers_iff`: whoever is passed over has no coins;
- `Collects`, `Covers.collects`: what a collection leaves of a ledger and an inventory that are in step.
-/

namespace CoinRelay

/-- Counts without a sum are all zero. -/
theorem Tier.Counts.eq_of_sum_eq_zero {c : Counts} (h : c.sum = 0) : c = {} := by
  obtain ⟨gold, silver, bronze⟩ := c
  simp only [sum] at h
  have hgold : gold = 0 := UInt32.toNat_inj.1 (by simp; omega)
  have hsilver : silver = 0 := UInt32.toNat_inj.1 (by simp; omega)
  have hbronze : bronze = 0 := UInt32.toNat_inj.1 (by simp; omega)
  rw [hgold, hsilver, hbronze]

namespace Ledger

variable {σ : Type} {link : Link σ} {l : Ledger} {i : Inventory} {now : UInt64} {maxIdle : Nat} {user : String}

/-! ## Several users -/

/-- Makes strangers of users, one after the other, and adds up what that comes to. -/
def demoteAll (users : List String) (start : Collection × Ledger × Inventory) : Collection × Ledger × Inventory :=
  users.foldl
    (fun (report, l, i) user =>
      let (purged, l, i) := demote user l i
      ({ demoted := report.demoted + 1, purged := report.purged + purged }, l, i))
    start

/-- The users that a collection makes strangers of. -/
def idleUsers (now : UInt64) (maxIdle : Nat) (l : Ledger) : List String :=
  (l.contacts.toList.filter fun (_, c) => isIdle now maxIdle c).map (·.1)

theorem collectIdle_eq (now : UInt64) (maxIdle : Nat) (l : Ledger) (i : Inventory) :
    l.collectIdle now maxIdle i = demoteAll (l.idleUsers now maxIdle) (⟨0, 0⟩, l, i) := rfl

/-- Coins of the first of several users, and coins of the others among those that are left. -/
theorem countP_owner_cons (user : String) (users : List String) (coins : List Coin) :
    coins.countP (·.owner ∈ user :: users) =
      (coins.filter fun coin => coin.owner = user).length +
        (coins.filter fun coin => coin.owner ≠ user).countP (·.owner ∈ users) := by
  induction coins with
  | nil => rfl
  | cons coin coins ih =>
    by_cases hu : coin.owner = user
    · simp only [List.countP_cons, List.filter_cons, hu, List.mem_cons, true_or, decide_true, if_true,
        List.length_cons, ne_eq, not_true, decide_false, Bool.false_eq_true, if_false]
      simp only [List.mem_cons, ne_eq] at ih
      omega
    · simp only [List.countP_cons, List.filter_cons, hu, List.mem_cons, false_or, decide_false, Bool.false_eq_true,
        if_false, ne_eq, not_false_eq_true, decide_true, if_true]
      simp only [List.mem_cons, ne_eq] at ih
      omega

theorem contacts_demoteAll (users : List String) (start : Collection × Ledger × Inventory) (user : String) :
    (demoteAll users start).2.1.contacts[user]? =
      if user ∈ users then start.2.1.contacts[user]?.map Contact.forgotten else start.2.1.contacts[user]? := by
  induction users generalizing start with
  | nil => rfl
  | cons first users ih =>
    obtain ⟨report, l, i⟩ := start
    refine (ih _).trans ?_
    rw [contacts_demote]
    by_cases hu : first = user
    · subst hu
      simp only [if_true, List.mem_cons, true_or]
      split
      · rw [Option.map_map]
        rfl
      · rfl
    · rw [if_neg hu]
      simp only [List.mem_cons, Ne.symm hu, false_or]

/-- From a ledger with the coins of a list in its inventory, strangers were made of users. -/
structure Demotes (users : List String) (coins : RecencyList) (start result : Collection × Ledger × Inventory) :
    Prop where
  contacts : ∀ user : String, result.2.1.contacts[user]? =
    if user ∈ users then start.2.1.contacts[user]?.map Contact.forgotten else start.2.1.contacts[user]?
  represents : Represents result.2.2.cache { coins with coins := coins.coins.filter (·.owner ∉ users) }
  entries : ∀ slot : Slot, slot.owner ∉ users → result.2.2.cache.entries[slot]? = start.2.2.cache.entries[slot]?
  vault : result.2.2.vault = start.2.2.vault
  demoted : result.1.demoted = start.1.demoted + users.length
  purged : result.1.purged = start.1.purged + coins.coins.countP (·.owner ∈ users)

/-- **Several users** are made strangers of as each of them is. -/
theorem demotes_demoteAll (users : List String) {coins : RecencyList} (start : Collection × Ledger × Inventory)
    (h : Represents start.2.2.cache coins) : Demotes users coins start (demoteAll users start) := by
  induction users generalizing start coins with
  | nil =>
    constructor
    · intro user
      rw [if_neg List.not_mem_nil]
      rfl
    · simp only [List.not_mem_nil, not_false_eq_true, decide_true, List.filter_true]
      exact h
    · intro slot _
      rfl
    · rfl
    · rfl
    · simp [demoteAll]
  | cons user users ih =>
    obtain ⟨report, l, i⟩ := start
    obtain ⟨hpurged, hnext⟩ := h.purge user
    have hrest := ih (⟨report.demoted + 1, report.purged + (i.cache.purge user).1⟩, (l.demote user i).2) hnext
    constructor
    · exact contacts_demoteAll (user :: users) (report, l, i)
    · have hrep := hrest.represents
      simp only [RecencyList.purge, List.filter_filter] at hrep
      have hfilter : coins.coins.filter (fun coin => decide (coin.owner ∉ users) && decide (coin.owner ≠ user)) =
          coins.coins.filter (·.owner ∉ user :: users) := by
        apply List.filter_congr
        intro coin _
        simp only [List.mem_cons, not_or, ne_eq, Bool.decide_and, Bool.and_comm]
      rw [hfilter] at hrep
      exact hrep
    · intro slot hslot
      obtain ⟨hne, hnot⟩ := not_or.1 (fun hm => hslot (List.mem_cons.2 hm))
      exact (hrest.entries slot hnot).trans (h.entries_purge hne)
    · exact hrest.vault
    · refine hrest.demoted.trans ?_
      rw [List.length_cons, Nat.add_comm users.length, ← Nat.add_assoc]
    · refine hrest.purged.trans ?_
      rw [countP_owner_cons]
      simp only at hpurged ⊢
      rw [hpurged, Nat.add_assoc]
      rfl

/-! ## Who is collected -/

/-- A user is a contact that was not seen for longer than `maxIdle` seconds. -/
def lapsed (now : UInt64) (maxIdle : Nat) (l : Ledger) (user : String) : Bool :=
  l.contacts[user]?.elim false fun c => maxIdle < elapsed c.lastSeen now

theorem lapsed_iff : l.lapsed now maxIdle user = true ↔
    ∃ c : Contact, l.contacts[user]? = some c ∧ maxIdle < elapsed c.lastSeen now := by
  unfold lapsed
  cases l.contacts[user]? <;> simp

theorem mem_idleUsers : user ∈ l.idleUsers now maxIdle ↔
    ∃ c : Contact, l.contacts[user]? = some c ∧ isIdle now maxIdle c = true := by
  simp only [idleUsers, List.mem_map, List.mem_filter, Prod.exists, Std.ExtTreeMap.mem_toList_iff_getElem?_eq_some]
  constructor
  · rintro ⟨_, c, ⟨hc, hidle⟩, rfl⟩
    exact ⟨c, hc, hidle⟩
  · rintro ⟨c, hc, hidle⟩
    exact ⟨user, c, ⟨hc, hidle⟩, rfl⟩

/-- Only contacts that were not seen for too long are collected. -/
theorem lapsed_of_mem_idleUsers (h : user ∈ l.idleUsers now maxIdle) : l.lapsed now maxIdle user = true := by
  obtain ⟨c, hc, hidle⟩ := mem_idleUsers.1 h
  rw [isIdle, Bool.and_eq_true] at hidle
  exact lapsed_iff.2 ⟨c, hc, of_decide_eq_true hidle.1⟩

/-- **Whoever is passed over** is a stranger already, and is counted without coins. -/
theorem stranger_of_not_isIdle {c : Contact} (hlapsed : maxIdle < elapsed c.lastSeen now)
    (h : isIdle now maxIdle c = false) : c.priority = .stranger ∧ c.held = {} := by
  simp only [isIdle, hlapsed, decide_true, Bool.true_and, Bool.or_eq_false_iff, decide_eq_false_iff_not, ne_eq,
    not_not, Nat.not_lt, Nat.le_zero] at h
  exact ⟨h.1, Tier.Counts.eq_of_sum_eq_zero h.2⟩

/-- **All cached coins** of contacts that were not seen for too long are those of contacts that are collected. -/
theorem Covers.mem_idleUsers_iff (h : Covers l i) {coin : Coin} (hc : coin ∈ i.cache.coins) :
    coin.owner ∈ l.idleUsers now maxIdle ↔ l.lapsed now maxIdle coin.owner = true := by
  refine ⟨lapsed_of_mem_idleUsers, ?_⟩
  intro hlapsed
  obtain ⟨c, hcontact, hlate⟩ := lapsed_iff.1 hlapsed
  rw [mem_idleUsers]
  refine ⟨c, hcontact, ?_⟩
  by_contra hidle
  have hheld := (stranger_of_not_isIdle hlate (Bool.not_eq_true _ ▸ hidle)).2
  exact h.ne_of_held_eq hcontact hheld hc rfl

/-! ## What becomes of a contact -/

/-- A contact as a collection leaves it. -/
def settle (now : UInt64) (maxIdle : Nat) (c : Contact) : Contact := if isIdle now maxIdle c then c.forgotten else c

theorem stranger_settle {c : Contact} (hlate : maxIdle < elapsed c.lastSeen now) :
    (settle now maxIdle c).priority = .stranger ∧ (settle now maxIdle c).held = {} := by
  unfold settle
  split
  · exact ⟨rfl, rfl⟩
  · next hidle => exact stranger_of_not_isIdle hlate (Bool.not_eq_true _ ▸ hidle)

/-- Whoever was seen not too long ago is not idle. -/
theorem settle_of_recent {c : Contact} (h : elapsed c.lastSeen now ≤ maxIdle) : settle now maxIdle c = c := by
  unfold settle isIdle
  simp [Nat.not_lt.2 h]

/-- Nobody is idle twice. -/
theorem isIdle_settle (c : Contact) : isIdle now maxIdle (settle now maxIdle c) = false := by
  unfold settle
  split
  · simp [isIdle, Contact.forgotten, Tier.Counts.sum]
  · next hidle => exact Bool.not_eq_true _ ▸ hidle

/-- **A collection** settles every contact, whatever is in the inventory. -/
theorem contacts_collectIdle (now : UInt64) (maxIdle : Nat) (l : Ledger) (i : Inventory) (user : String) :
    (l.collectIdle now maxIdle i).2.1.contacts[user]? = l.contacts[user]?.map (settle now maxIdle) := by
  rw [collectIdle_eq, contacts_demoteAll]
  simp only [mem_idleUsers]
  cases l.contacts[user]? with
  | none => simp
  | some c => by_cases hidle : isIdle now maxIdle c = true <;> simp [settle, hidle]

theorem idleUsers_collectIdle (now : UInt64) (maxIdle : Nat) (l : Ledger) (i : Inventory) :
    (l.collectIdle now maxIdle i).2.1.idleUsers now maxIdle = [] := by
  apply List.eq_nil_iff_forall_not_mem.2
  intro user hmem
  obtain ⟨left, hleft, hidle⟩ := mem_idleUsers.1 hmem
  rw [contacts_collectIdle] at hleft
  obtain ⟨c, -, rfl⟩ := Option.map_eq_some_iff.1 hleft
  rw [isIdle_settle] at hidle
  cases hidle

/-! ## One collection -/

/-- What a collection leaves of a ledger and an inventory, and what it tells. -/
structure Collects (now : UInt64) (maxIdle : Nat) (l : Ledger) (i : Inventory)
    (result : Collection × Ledger × Inventory) : Prop where
  /-- A contact that was not seen for too long is a stranger, counted without coins and without any. -/
  idle : ∀ (user : String) (c : Contact), l.contacts[user]? = some c → maxIdle < elapsed c.lastSeen now →
    (∃ left : Contact, result.2.1.contacts[user]? = some left ∧ left.priority = .stranger ∧ left.held = {}) ∧
      ∀ coin ∈ result.2.2.cache.coins, coin.owner ≠ user
  /-- The other contacts are as they were, and there are no new ones. -/
  contacts : ∀ user : String, l.lapsed now maxIdle user = false → result.2.1.contacts[user]? = l.contacts[user]?
  /-- The coins of all others are cached as they were. -/
  entries : ∀ slot : Slot, l.lapsed now maxIdle slot.owner = false →
    result.2.2.cache.entries[slot]? = i.cache.entries[slot]?
  /-- They keep their order of use. -/
  byRecency : result.2.2.cache.byRecency = i.cache.byRecency.filter fun coin => !l.lapsed now maxIdle coin.owner
  vault : result.2.2.vault = i.vault
  /-- The coins told to be purged are those that are gone from the cache. -/
  purged : result.1.purged = i.cache.byRecency.countP (fun coin => l.lapsed now maxIdle coin.owner) ∧
    result.2.2.cache.entries.size + result.1.purged = i.cache.entries.size
  /-- The contacts told to be demoted are those that had something to lose. -/
  demoted : result.1.demoted = l.contacts.toList.countP fun (_, c) => isIdle now maxIdle c
  /-- A collection right after it finds nothing. -/
  again : result.2.1.collectIdle now maxIdle result.2.2 = (⟨0, 0⟩, result.2)

/-- **A collection is complete and harmless** where the ledger is in step with the inventory. -/
theorem Covers.collects (h : Covers l i) (now : UInt64) (maxIdle : Nat) :
    Collects now maxIdle l i (l.collectIdle now maxIdle i) := by
  obtain ⟨coins, hcoins⟩ := h.consistent
  have hdemotes := demotes_demoteAll (l.idleUsers now maxIdle) (⟨0, 0⟩, l, i) hcoins
  have hsettled := contacts_collectIdle now maxIdle l i
  have hdone := idleUsers_collectIdle now maxIdle l i
  rw [← collectIdle_eq] at hdemotes
  generalize l.collectIdle now maxIdle i = result at hdemotes hsettled hdone ⊢
  have howner : ∀ coin ∈ coins.coins,
      decide (coin.owner ∈ l.idleUsers now maxIdle) = l.lapsed now maxIdle coin.owner := by
    intro coin hc
    have hmem : coin ∈ i.cache.coins := by
      rw [hcoins.coins_eq]
      exact hc
    rw [Bool.eq_iff_iff, decide_eq_true_iff]
    exact h.mem_idleUsers_iff hmem
  have hleft : coins.coins.filter (·.owner ∉ l.idleUsers now maxIdle) =
      coins.coins.filter fun coin => !l.lapsed now maxIdle coin.owner := by
    apply List.filter_congr
    intro coin hc
    rw [← howner coin hc, decide_not]
  have hpurged : result.1.purged = coins.coins.countP fun coin => l.lapsed now maxIdle coin.owner := by
    refine hdemotes.purged.trans ((Nat.zero_add _).trans ?_)
    apply List.countP_congr
    intro coin hc
    rw [howner coin hc]
  have hothers : ∀ user : String, l.lapsed now maxIdle user = false → user ∉ l.idleUsers now maxIdle := by
    intro user hlapsed hmem
    rw [lapsed_of_mem_idleUsers hmem] at hlapsed
    cases hlapsed
  constructor
  · intro user c hc hlate
    refine ⟨⟨settle now maxIdle c, (hsettled user).trans (by rw [hc, Option.map_some]), stranger_settle hlate⟩, ?_⟩
    intro coin hcoin
    rw [hdemotes.represents.coins_eq, hleft, Multiset.mem_coe] at hcoin
    rintro rfl
    have hnot := (List.mem_filter.1 hcoin).2
    rw [lapsed_iff.2 ⟨c, hc, hlate⟩] at hnot
    cases hnot
  · intro user hlapsed
    exact (hdemotes.contacts user).trans (if_neg (hothers user hlapsed))
  · intro slot hlapsed
    exact hdemotes.entries slot (hothers slot.owner hlapsed)
  · rw [hdemotes.represents.byRecency_eq, hcoins.byRecency_eq]
    exact hleft
  · exact hdemotes.vault
  · refine ⟨?_, ?_⟩
    · rw [hcoins.byRecency_eq]
      exact hpurged
    · have hsplit := List.length_eq_countP_add_countP (fun coin => l.lapsed now maxIdle coin.owner) (l := coins.coins)
      simp only [Bool.not_eq_true, Bool.decide_eq_false] at hsplit
      rw [hdemotes.represents.size_entries, hcoins.size_entries, hpurged, hsplit]
      simp only
      rw [hleft, ← List.countP_eq_length_filter, Nat.add_comm]
  · refine hdemotes.demoted.trans ((Nat.zero_add _).trans ?_)
    rw [idleUsers, List.length_map, List.countP_eq_length_filter]
  · rw [collectIdle_eq, hdone]
    rfl

/-- **Collections of idle contacts are complete and harmless.** However a ledger and its inventory were used, with coins
put into the cache by observations alone and no count beyond 32 bits: each contact is filed under its name, has the
priority of its rate and is counted with at least the coins that it has in the cache, whoever is no contact has none
there, and a collection takes the coins of the contacts that were not seen for too long and changes nothing else. -/
theorem collectIdle_complete {σ : Type} (link : Link σ) (issuance : Issuance) (ceiling : Nat) (sealer : Crypto.Sealer)
    (line : σ) (steps : List (Step σ))
    (hfit : CountsFit link steps ⟨{ issuance }, .empty ceiling sealer, line⟩) :
    let s := run link steps ⟨{ issuance }, .empty ceiling sealer, line⟩
    (∀ (user : String) (c : Contact), s.ledger.contacts[user]? = some c →
      c.user = user ∧ c.priority = .ofRate c.rate ∧
        ∀ tier, s.inventory.cache.stock user tier ≤ (c.held.get tier).toNat) ∧
      (∀ coin ∈ s.inventory.cache.coins, ∃ c : Contact, s.ledger.contacts[coin.owner]? = some c) ∧
      ∀ now maxIdle, Collects now maxIdle s.ledger s.inventory (s.ledger.collectIdle now maxIdle s.inventory) := by
  intro s
  have h : s.ledger.Covers s.inventory := covers_run hfit (.empty issuance ceiling sealer)
  refine ⟨?_, ?_, ?_⟩
  · intro user c hc
    refine ⟨h.user_eq user c hc, h.priority_eq user c hc, ?_⟩
    intro tier
    have hstock := h.stock_le user tier
    rw [counted, hc] at hstock
    exact hstock
  · intro coin hc
    exact h.contact_of_mem hc
  · intro now maxIdle
    exact h.collects now maxIdle

/-- A coin of Ada's. -/
def bronzeCoin : Coin where
  owner := "ada"
  keyId := ⟨3⟩
  tier := .bronze
  publicKey := "ab"
  signature := "s"

/-- A broker that lists Ada's coin. -/
def market : Broker := (Broker.publish [bronzeCoin] { clock := ⟨0⟩ }).2

/-- A ledger that starts with no contacts, and an inventory without coins. -/
def newcomer : Holdings Broker where
  ledger := {}
  inventory := .empty 65536 { key := [], nonces := .constant (.ok []) }
  line := market

/-- Ada is observed once, as a mate. A minute later, a collection makes a stranger of her and drops her coin. -/
theorem collectIdle_complete_ada :
    let steps := [Step.observe 0 "ada" 5]
    let s := run .direct steps newcomer
    CountsFit .direct steps newcomer ∧ s.inventory.cache.byRecency = [bronzeCoin] ∧
      (s.ledger.collectIdle 60 59 s.inventory).1 = ⟨1, 1⟩ ∧
      Collects 60 59 s.ledger s.inventory (s.ledger.collectIdle 60 59 s.inventory) := by
  intro steps s
  have hfit : CountsFit .direct steps newcomer := countsFit_of_ceiling (by decide) steps (.empty 65536)
  refine ⟨hfit, by decide +kernel, by decide +kernel, ?_⟩
  exact (collectIdle_complete .direct {} 65536 _ market steps hfit).2.2 60 59

end Ledger

end CoinRelay
