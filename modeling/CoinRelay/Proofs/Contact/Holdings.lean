import CoinRelay.Contact.Ledger
import CoinRelay.Proofs.Inventory.Indexes
import CoinRelay.Proofs.Inventory.Stock

/-!
# What a ledger knows of an inventory

A ledger counts the coins of a contact when it observes the contact. Between two observations the cache loses coins
without the ledger's knowledge, so what is counted is an upper bound (`Covers`).

- `fetchAll_induction`, `collectIdle_induction`: what each fetch keeps, or each contact that is made a stranger;
- `fetchAll_stores`: fetches put coins of the contact into the cache and do nothing else, whatever the broker answers;
- `Covers.of_coins_le`, `Covers.demote`, `Covers.observe`: what keeps a ledger in step with an inventory;
- `Step`, `run`, `CountsFit`: the operations of a ledger between others on its inventory;
- `covers_run`: the ledger is in step after any of them;
- `countsFit_of_ceiling`: how much room a cache may have for all counts to fit into 32 bits.
-/

namespace CoinRelay.Ledger

variable {σ : Type} {link : Link σ} {l : Ledger} {i : Inventory} {user : String}

/-! ## Fetches -/

/-- What every fetch of a tier keeps is kept by several of them. -/
theorem fetchMany_induction {P : Inventory → σ → Prop}
    (hone : ∀ tier i s, P i s → P (fetchOne link user tier i s).2.1 (fetchOne link user tier i s).2.2) (tier : Tier)
    (n obtained : Nat) {s : σ} (h : P i s) :
    P (fetchMany link user tier n obtained i s).2.1 (fetchMany link user tier n obtained i s).2.2 := by
  induction n generalizing obtained i s with
  | zero => exact h
  | succ n ih => exact ih _ (hone tier i s h)

/-- What every fetch keeps is kept by those of all tiers. -/
theorem fetchAll_induction {P : Inventory → σ → Prop}
    (hone : ∀ tier i s, P i s → P (fetchOne link user tier i s).2.1 (fetchOne link user tier i s).2.2)
    (requested : Tier.Counts) {s : σ} (h : P i s) :
    P (fetchAll link user requested i s).2.1 (fetchAll link user requested i s).2.2 := by
  have hgold := fetchMany_induction hone .gold requested.gold.toNat 0 h
  have hsilver := fetchMany_induction hone .silver requested.silver.toNat 0 hgold
  exact fetchMany_induction hone .bronze requested.bronze.toNat 0 hsilver

/-- **Fetches** put coins of the user into the cache, and do nothing else to an inventory. -/
theorem fetchAll_stores {P : Inventory → Prop}
    (hstore : ∀ coin i, coin.owner = user → P i → P (i.onCache (·.store coin)).2) (requested : Tier.Counts) (s : σ)
    (h : P i) : P (fetchAll link user requested i s).2.1 := by
  refine fetchAll_induction (P := fun i _ => P i) ?_ requested h
  intro tier i s hi
  unfold fetchOne
  split
  · next coin s' _ =>
    split
    · next hmatch => exact hstore coin i hmatch.1 hi
    · exact hi
  · exact hi

/-- **Fetches** for a user add no coins of others. -/
theorem stock_fetchAll_le (h : i.cache.Consistent) (requested : Tier.Counts) (s : σ) :
    (fetchAll link user requested i s).2.1.cache.Consistent ∧ ∀ other, other ≠ user → ∀ tier,
      (fetchAll link user requested i s).2.1.cache.stock other tier ≤ i.cache.stock other tier := by
  refine fetchAll_stores (P := fun j => j.cache.Consistent ∧ ∀ other, other ≠ user → ∀ tier,
    j.cache.stock other tier ≤ i.cache.stock other tier) ?_ requested s ⟨h, fun _ _ _ => le_rfl⟩
  intro coin j hown hj
  refine ⟨(hj.1.store coin).1, ?_⟩
  intro other hne tier
  exact (hj.1.stock_store_le (hown ▸ hne) tier).trans (hj.2 other hne tier)

/-- A collection makes strangers of contacts, one after the other: what each of these keeps is kept. -/
theorem collectIdle_induction {P : Ledger → Inventory → Prop}
    (hdemote : ∀ user l i, P l i → P (l.demote user i).2.1 (l.demote user i).2.2) (now : UInt64) (maxIdle : Nat)
    (h : P l i) : P (l.collectIdle now maxIdle i).2.1 (l.collectIdle now maxIdle i).2.2 := by
  unfold collectIdle
  generalize (List.map _ _ : List String) = idle
  generalize (⟨0, 0⟩ : Collection) = report
  induction idle generalizing report l i with
  | nil => exact h
  | cons user idle ih =>
    rw [List.foldl_cons]
    exact ih (hdemote user l i h) _

/-! ## Ledgers in step with inventories -/

/-- How many coins of a user and a tier a ledger counts: none, for a user that is no contact. -/
def counted (user : String) (tier : Tier) (l : Ledger) : Nat :=
  l.contacts[user]?.elim 0 fun c => (c.held.get tier).toNat

/-- A ledger in step with an inventory. -/
structure Covers (l : Ledger) (i : Inventory) : Prop where
  consistent : i.cache.Consistent
  /-- A contact is filed under its name. -/
  user_eq : ∀ (user : String) (c : Contact), l.contacts[user]? = some c → c.user = user
  /-- The priority of a contact is that of its rate. -/
  priority_eq : ∀ (user : String) (c : Contact), l.contacts[user]? = some c → c.priority = .ofRate c.rate
  /-- No more coins are cached than are counted. -/
  stock_le : ∀ user tier, i.cache.stock user tier ≤ l.counted user tier

theorem contacts_demote (user other : String) (l : Ledger) (i : Inventory) :
    (l.demote user i).2.1.contacts[other]? =
      if user = other then l.contacts[other]?.map Contact.forgotten else l.contacts[other]? :=
  Ordered.getElem?_modify_eq l.contacts user other Contact.forgotten

theorem contacts_observe (link : Link σ) (now : UInt64) (user other : String) (rate : UInt32) (l : Ledger)
    (i : Inventory) (s : σ) :
    (l.observe link now user rate i s).2.1.contacts[other]? =
      if user = other then some
        { user, rate, priority := .ofRate rate,
          held := (l.observe link now user rate i s).2.2.1.cache.held user, lastSeen := now }
      else l.contacts[other]? :=
  Ordered.getElem?_insert_eq l.contacts user other _

namespace Covers

theorem empty (issuance : Issuance) (ceiling : Nat) (sealer : Crypto.Sealer) :
    Covers { issuance } (.empty ceiling sealer) := by
  constructor
  · exact .empty ceiling
  · intro user c hc
    simp at hc
  · intro user c hc
    simp at hc
  · intro user tier
    exact Nat.zero_le _

/-- The cache may lose coins. -/
theorem of_coins_le {i' : Inventory} (h : Covers l i) (hcache : i'.cache.Consistent)
    (hcoins : i'.cache.coins ≤ i.cache.coins) : Covers l i' := by
  constructor
  · exact hcache
  · exact h.user_eq
  · exact h.priority_eq
  · intro user tier
    exact (Cache.stock_le hcoins user tier).trans (h.stock_le user tier)

/-- **Users that are no contacts** have no coins in the cache. -/
theorem contact_of_mem (h : Covers l i) {coin : Coin} (hc : coin ∈ i.cache.coins) :
    ∃ c, l.contacts[coin.owner]? = some c := by
  have hstock := (Cache.stock_pos hc).trans_le (h.stock_le coin.owner coin.tier)
  cases hcontact : l.contacts[coin.owner]? with
  | some c => exact ⟨c, rfl⟩
  | none =>
    rw [counted, hcontact] at hstock
    exact absurd hstock (Nat.lt_irrefl 0)

/-- **A contact without coins** has none in the cache. -/
theorem ne_of_held_eq (h : Covers l i) {c : Contact} (hc : l.contacts[user]? = some c) (hheld : c.held = {})
    {coin : Coin} (hcoin : coin ∈ i.cache.coins) : coin.owner ≠ user := by
  rintro rfl
  have hstock := (Cache.stock_pos hcoin).trans_le (h.stock_le coin.owner coin.tier)
  rw [counted, hc, Option.elim_some, hheld] at hstock
  revert hstock
  cases coin.tier <;> exact fun hstock => absurd hstock (Nat.lt_irrefl 0)

/-- **A contact that is made a stranger** is counted without coins and has none. -/
theorem demote (h : Covers l i) (user : String) : Covers (l.demote user i).2.1 (l.demote user i).2.2 := by
  obtain ⟨hcache, hcoins⟩ := h.consistent.purge user
  constructor
  · exact hcache
  · intro other c hc
    rw [contacts_demote] at hc
    split at hc
    · obtain ⟨old, hold, rfl⟩ := Option.map_eq_some_iff.1 hc
      exact h.user_eq other old hold
    · exact h.user_eq other c hc
  · intro other c hc
    rw [contacts_demote] at hc
    split at hc
    · obtain ⟨old, -, rfl⟩ := Option.map_eq_some_iff.1 hc
      rfl
    · exact h.priority_eq other c hc
  · intro other tier
    have hstock := (Cache.stock_le hcoins other tier).trans (h.stock_le other tier)
    by_cases hu : user = other
    · subst hu
      have hnone : (i.cache.purge user).2.stock user tier = 0 := by
        apply Multiset.countP_eq_zero.2
        intro coin hc hown
        exact h.consistent.ne_of_mem_purge hc hown.1
      show (i.cache.purge user).2.stock user tier ≤ _
      rw [hnone]
      exact Nat.zero_le _
    · unfold counted at hstock ⊢
      rw [contacts_demote, if_neg hu]
      exact hstock

/-- **An observed contact** is counted anew, and the others lose coins at most. -/
theorem observe (h : Covers l i) (link : Link σ) (now : UInt64) (user : String) (rate : UInt32) (s : σ)
    (hfit : ∀ tier, (l.observe link now user rate i s).2.2.1.cache.stock user tier < UInt32.size) :
    Covers (l.observe link now user rate i s).2.1 (l.observe link now user rate i s).2.2.1 := by
  have hfetched : (l.observe link now user rate i s).2.2.1.cache.Consistent ∧ ∀ other, other ≠ user → ∀ tier,
      (l.observe link now user rate i s).2.2.1.cache.stock other tier ≤ i.cache.stock other tier :=
    stock_fetchAll_le h.consistent _ s
  obtain ⟨hcache, hothers⟩ := hfetched
  have hcontacts := fun other => contacts_observe link now user other rate l i s
  constructor
  · exact hcache
  · intro other c hc
    rw [hcontacts] at hc
    split at hc
    · next hu =>
      cases hc
      exact hu
    · exact h.user_eq other c hc
  · intro other c hc
    rw [hcontacts] at hc
    split at hc
    · cases hc
      rfl
    · exact h.priority_eq other c hc
  · intro other tier
    unfold counted
    rw [hcontacts]
    by_cases hu : user = other
    · subst hu
      rw [if_pos rfl, Option.elim_some, hcache.get_held, UInt32.toNat_ofNat_of_lt' (hfit tier)]
    · rw [if_neg hu]
      exact (hothers other (Ne.symm hu) tier).trans (h.stock_le other tier)

/-- **A collection** makes strangers of contacts. -/
theorem collectIdle (h : Covers l i) (now : UInt64) (maxIdle : Nat) :
    Covers (l.collectIdle now maxIdle i).2.1 (l.collectIdle now maxIdle i).2.2 :=
  collectIdle_induction (fun user _ _ hc => hc.demote user) now maxIdle h

/-- **The collection** of one contact makes a stranger of it, if there is such a contact. -/
theorem collect? (h : Covers l i) (user : String) : Covers (l.collect? user i).2.1 (l.collect? user i).2.2 := by
  unfold Ledger.collect?
  split
  · exact h.demote user
  · exact h

end Covers

/-! ## Runs -/

/-- A ledger, its inventory, and its line to a broker. -/
structure Holdings (σ : Type) where
  ledger : Ledger
  inventory : Inventory
  line : σ

/-- What happens to a ledger and an inventory when coins come into the cache by observations alone: operations of the
ledger, each at a time of its own; calls on the inventory that store no coin; and whatever happens at the other end of
the line. -/
inductive Step (σ : Type)
  | observe (now : UInt64) (user : String) (rate : UInt32)
  | collectIdle (now : UInt64) (maxIdle : Nat)
  | collect (user : String)
  | call (call : InventoryCall) (h : call.storesCoin = false)
  | line (change : σ → σ)

namespace Step

/-- What a step leaves. -/
def after (link : Link σ) (step : Step σ) (s : Holdings σ) : Holdings σ :=
  match step with
  | observe now user rate =>
    let (_, ledger, inventory, rest) := s.ledger.observe link now user rate s.inventory s.line
    { ledger, inventory, line := rest }
  | collectIdle now maxIdle =>
    let (_, ledger, inventory) := s.ledger.collectIdle now maxIdle s.inventory
    { s with ledger, inventory }
  | collect user =>
    let (_, ledger, inventory) := s.ledger.collect? user s.inventory
    { s with ledger, inventory }
  | call c _ => { s with inventory := (c.make s.inventory).2 }
  | line change => { s with line := change s.line }

/-- The counts that a step takes of the coins of a contact fit into 32 bits. -/
def CountsFit (link : Link σ) (step : Step σ) (s : Holdings σ) : Prop :=
  match step with
  | observe _ user _ => ∀ tier, (step.after link s).inventory.cache.stock user tier < UInt32.size
  | _ => True

/-- **Every step** leaves a ledger in step with its inventory. -/
theorem covers_after {step : Step σ} {s : Holdings σ} (hfit : step.CountsFit link s)
    (h : s.ledger.Covers s.inventory) : (step.after link s).ledger.Covers (step.after link s).inventory := by
  cases step with
  | observe now user rate => exact h.observe link now user rate s.line hfit
  | collectIdle now maxIdle => exact h.collectIdle now maxIdle
  | collect user => exact h.collect? user
  | call c hcall =>
    obtain ⟨hcache, hcoins⟩ := h.consistent.coins_make_le hcall
    exact h.of_coins_le hcache hcoins
  | line change => exact h

end Step

/-- What steps leave, one after the other. -/
def run (link : Link σ) (steps : List (Step σ)) (s : Holdings σ) : Holdings σ :=
  steps.foldl (fun s step => step.after link s) s

/-- No count of a run passes 32 bits. -/
def CountsFit (link : Link σ) : List (Step σ) → Holdings σ → Prop
  | [], _ => True
  | step :: steps, s => step.CountsFit link s ∧ CountsFit link steps (step.after link s)

/-- **A run** leaves a ledger in step with its inventory. -/
theorem covers_run {steps : List (Step σ)} {s : Holdings σ} (hfit : CountsFit link steps s)
    (h : s.ledger.Covers s.inventory) : (run link steps s).ledger.Covers (run link steps s).inventory := by
  induction steps generalizing s with
  | nil => exact h
  | cons step steps ih => exact ih hfit.2 (Step.covers_after hfit.1 h)

/-! ## Counts that fit -/

/-- A cache with a ceiling holds no more coins of a user and a tier than 32 bits count, if the ceiling leaves no room for
more coins without any texts. -/
theorem stock_lt_of_ceiling {ceiling : Nat} {c : Cache} (h : c.Fitting ceiling)
    (hceiling : ceiling < recordOverhead * UInt32.size) (user : String) (tier : Tier) :
    c.stock user tier < UInt32.size := by
  obtain ⟨coins, hcoins, rfl, hfits⟩ := h
  have hstock : c.stock user tier ≤ coins.coins.length := by
    rw [Cache.stock, hcoins.coins_eq, Multiset.coe_countP]
    exact List.countP_le_length
  have hbound : recordOverhead * coins.coins.length < recordOverhead * UInt32.size :=
    ((RecencyList.mul_length_le_room coins.coins).trans hfits).trans_lt hceiling
  exact hstock.trans_lt (Nat.lt_of_mul_lt_mul_left hbound)

/-- **Every step** leaves a cache whose coins fit. -/
theorem Step.fitting_after {ceiling : Nat} {s : Holdings σ} (h : s.inventory.cache.Fitting ceiling) (step : Step σ) :
    (step.after link s).inventory.cache.Fitting ceiling := by
  cases step with
  | observe now user rate =>
    refine fetchAll_stores (P := fun i => i.cache.Fitting ceiling) ?_ _ _ h
    intro coin i _ hi
    exact hi.make (.cache (.store coin))
  | collectIdle now maxIdle =>
    refine collectIdle_induction (P := fun _ i => i.cache.Fitting ceiling) ?_ now maxIdle h
    intro user l i hi
    exact hi.make (.cache (.purge user))
  | collect user =>
    show (s.ledger.collect? user s.inventory).2.2.cache.Fitting ceiling
    unfold Ledger.collect?
    split
    · exact h.make (.cache (.purge user))
    · exact h
  | call c hcall => exact h.make c
  | line change => exact h

/-- **The ceiling bounds the counts.** -/
theorem countsFit_of_ceiling {ceiling : Nat} (hceiling : ceiling < recordOverhead * UInt32.size)
    (steps : List (Step σ)) {s : Holdings σ} (h : s.inventory.cache.Fitting ceiling) : CountsFit link steps s := by
  induction steps generalizing s with
  | nil => trivial
  | cons step steps ih =>
    have hnext : (step.after link s).inventory.cache.Fitting ceiling := step.fitting_after h
    refine ⟨?_, ih hnext⟩
    cases step with
    | observe now user rate => exact stock_lt_of_ceiling hnext hceiling user
    | _ => trivial

end CoinRelay.Ledger
