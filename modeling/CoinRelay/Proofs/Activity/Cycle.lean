import CoinRelay.Activity.Station
import CoinRelay.Proofs.Client.Series
import CoinRelay.Proofs.Contact.Collection
import CoinRelay.Proofs.Contact.Rates
import CoinRelay.Proofs.Contact.Replenishment

/-!
# Cycles of maintenance

Under ideal conditions a cycle mints a batch and observes everyone whom the tracker reports, the user apart. Which calls
that takes is settled before the first of them is made: answers and failures change nothing about them (`Cycles`). Under
other conditions a cycle makes no calls (`Rests`). Both end with a collection.

- `Client.publication`, `Client.mintBatch_logged`: the calls for a batch;
- `Ledger.fetches`, `observeAll_logged`: the calls for the contacts that are observed;
- `Station.Restocks`: what observations and collections may change;
- `Station.cycles`, `Station.rests`, `Station.maintain?_of_exhausted`: the three ways of a cycle.
-/

namespace CoinRelay

/-! ## The calls for a batch -/

namespace Client

variable {σ : Type} {now seed : UInt64} {c : Client}

instance (seed : UInt64) (c : Client) : Decidable (c.Sealable seed) :=
  decidable_of_iff (∀ i < (c.issued seed).length,
      (c.inventory.vault.sealer.nonces.item (c.inventory.vault.sealer.nonces.used + i)).toOption.isSome) <| by
    refine forall₂_congr fun i _ => ?_
    cases c.inventory.vault.sealer.nonces.item (c.inventory.vault.sealer.nonces.used + i) <;> simp [Except.toOption]

/-- The calls for a batch: its publication, if there are coins and all their secrets can be sealed. -/
def publication (seed : UInt64) (c : Client) : List Link.Call :=
  if c.Sealable seed ∧ c.coins seed ≠ [] then [.publish (c.coins seed)] else []

theorem publishBatch_logged (link : Link σ) (report : MintReport) (coins : List Coin) (c : Client)
    (calls : List Link.Call) (s : σ) :
    publishBatch link.logged report coins c (calls, s) =
      ((publishBatch link report coins c s).1, (publishBatch link report coins c s).2.1, .publish coins :: calls,
        (publishBatch link report coins c s).2.2) := by
  cases hp : link.publish coins s with
  | mk answer t =>
    simp only [publishBatch, Link.logged, Link.entering, hp]
    cases answer with
    | ok ack => rfl
    | error failure => cases failure <;> rfl

/-- **The calls for a batch** do not depend on what they are answered. -/
theorem mintBatch_logged (hseed : c.nextSeed? now = some seed) (link : Link σ) (calls : List Link.Call) (s : σ) :
    c.mintBatch link.logged now (calls, s) =
      ((c.mintBatch link now s).1, (c.mintBatch link now s).2.1, (c.publication seed).reverse ++ calls,
        (c.mintBatch link now s).2.2) := by
  unfold publication
  by_cases h : c.Sealable seed
  · rw [mintBatch_of_sealable hseed h, mintBatch_of_sealable hseed h]
    by_cases hempty : c.coins seed = []
    · rw [if_pos (List.isEmpty_iff.2 hempty), if_pos (List.isEmpty_iff.2 hempty), if_neg fun hne => hne.2 hempty]
      rfl
    · have hne : ¬(c.coins seed).isEmpty = true := fun he => hempty (List.isEmpty_iff.1 he)
      rw [if_neg hne, if_neg hne, publishBatch_logged, if_pos ⟨h, hempty⟩]
      rfl
  · obtain ⟨reason, d, -, -, -, hmint⟩ := mintBatch_of_not_sealable hseed h
    rw [hmint, hmint, if_neg fun hne => h hne.1]
    rfl

/-- While a seed is left, minting does not run out of them. -/
theorem mintBatch_ne_exhausted (hseed : c.nextSeed? now = some seed) (link : Link σ) (s : σ) :
    (c.mintBatch link now s).1 ≠ .error .seedsExhausted := by
  by_cases h : c.Sealable seed
  · rw [mintBatch_of_sealable hseed h]
    split
    · exact fun hn => nomatch hn
    · unfold publishBatch
      split <;> exact fun hn => nomatch hn
  · obtain ⟨reason, d, -, -, -, hmint⟩ := mintBatch_of_not_sealable hseed h
    rw [hmint]
    exact fun hn => nomatch hn

end Client

/-! ## The calls for the contacts -/

namespace Ledger

/-- The fetches for users with rates: for each of them as many as the table has for its priority. -/
def fetches (issuance : Issuance) (rates : List (String × UInt32)) : List Link.Call :=
  rates.flatMap fun (user, rate) => (issuance.replenish (.ofRate rate)).each.map (.fetch user)

theorem fetches_cons (issuance : Issuance) (rate : String × UInt32) (rates : List (String × UInt32)) :
    fetches issuance (rate :: rates) = fetches issuance [rate] ++ fetches issuance rates := by
  simp only [fetches, List.flatMap_cons, List.flatMap_nil, List.append_nil]

theorem observe_logged {σ : Type} (link : Link σ) (now : UInt64) (user : String) (rate : UInt32) (l : Ledger)
    (i : Inventory) (calls : List Link.Call) (s : σ) :
    l.observe link.logged now user rate i (calls, s) =
      ((l.observe link now user rate i s).1, (l.observe link now user rate i s).2.1,
        (l.observe link now user rate i s).2.2.1, (fetches l.issuance [(user, rate)]).reverse ++ calls,
        (l.observe link now user rate i s).2.2.2) := by
  simp only [observe, fetchAll_eq, fetched, Link.transcript_logged, fetches, List.flatMap_singleton]

end Ledger

namespace Station

open Ledger (fetches settle)

variable {σ : Type} {link : Link σ} {now : UInt64} {seen : String → UInt64} {clock : Readings} {maxIdle : Nat}
  {seed : UInt64} {s t u : Station σ}

/-- The station with another line. -/
def on {τ : Type} (line : τ) (s : Station σ) : Station τ :=
  { client := s.client, ledger := s.ledger, tracker := s.tracker, device := s.device, random := s.random, line }

/-- The rates that a cycle observes: all that the tracker reports but the user's own. -/
def observed (s : Station σ) : List (String × UInt32) := s.tracker.snapshot.1.filter (·.1 ≠ s.client.user)

/-! ## What observations and collections may change -/

/-- The contacts, the cache and the line may differ, and no more. -/
structure Restocks (s t : Station σ) : Prop where
  client : t.client = { s.client with inventory := { s.client.inventory with cache := t.client.inventory.cache } }
  issuance : t.ledger.issuance = s.ledger.issuance
  tracker : t.tracker = s.tracker
  device : t.device = s.device
  random : t.random = s.random

namespace Restocks

theorem refl (s : Station σ) : Restocks s s := ⟨rfl, rfl, rfl, rfl, rfl⟩

theorem trans (h : Restocks s t) (h' : Restocks t u) : Restocks s u := by
  refine ⟨?_, h'.issuance.trans h.issuance, h'.tracker.trans h.tracker, h'.device.trans h.device,
    h'.random.trans h.random⟩
  rw [h'.client, h.client]

theorem user_eq (h : Restocks s t) : t.client.user = s.client.user := by rw [h.client]

theorem lastSeed_eq (h : Restocks s t) : t.client.lastSeed = s.client.lastSeed := by rw [h.client]

theorem observe (link : Link σ) (now : UInt64) (s : Station σ) (rate : String × UInt32) :
    Restocks s (s.observe link now rate) := by
  unfold Station.observe
  split
  · exact refl s
  · refine ⟨?_, rfl, rfl, rfl, rfl⟩
    simp only [Ledger.inventory_observe]

theorem observeAll (link : Link σ) (seen : String → UInt64) (rates : List (String × UInt32)) (s : Station σ) :
    Restocks s (s.observeAll link seen rates) := by
  induction rates generalizing s with
  | nil => exact refl s
  | cons rate rates ih => exact (observe link (seen rate.1) s rate).trans (ih _)

theorem collect (now : UInt64) (maxIdle : Nat) (s : Station σ) : Restocks s (s.collect now maxIdle) := by
  have hvault := Ledger.collectIdle_induction (P := fun l i => l.issuance = s.ledger.issuance ∧
    i.vault = s.client.inventory.vault) (fun _ _ _ h => h) now maxIdle (l := s.ledger) (i := s.client.inventory)
    ⟨rfl, rfl⟩
  refine ⟨?_, hvault.1, rfl, rfl, rfl⟩
  unfold Station.collect
  simp only
  rw [← hvault.2]

end Restocks

/-! ## Observations -/

theorem observeAll_cons (link : Link σ) (seen : String → UInt64) (rate : String × UInt32)
    (rates : List (String × UInt32)) (s : Station σ) :
    s.observeAll link seen (rate :: rates) = (s.observe link (seen rate.1) rate).observeAll link seen rates := rfl

/-- Observing the user does nothing. -/
theorem observeAll_filter (rates : List (String × UInt32)) (s : Station σ) :
    s.observeAll link seen (rates.filter (·.1 ≠ s.client.user)) = s.observeAll link seen rates := by
  induction rates generalizing s with
  | nil => rfl
  | cons rate rates ih =>
    have hrest := ih (s.observe link (seen rate.1) rate)
    rw [(Restocks.observe link (seen rate.1) s rate).user_eq] at hrest
    by_cases h : rate.1 = s.client.user
    · rw [List.filter_cons_of_neg (by simpa using h), observeAll_cons, ← hrest, observe, if_pos h]
    · rw [List.filter_cons_of_pos (by simpa using h), observeAll_cons, observeAll_cons, hrest]

/-- **A replenishment** observes everyone whom the tracker reports but the user. -/
theorem replenish_eq (link : Link σ) (seen : String → UInt64) (s : Station σ) :
    s.replenish link seen = observeAll link seen s.observed { s with tracker := s.tracker.snapshot.2 } :=
  (observeAll_filter s.tracker.snapshot.1 { s with tracker := s.tracker.snapshot.2 }).symm

/-- **The calls for contacts** do not depend on what they are answered. -/
theorem observeAll_logged (link : Link σ) (seen : String → UInt64) {rates : List (String × UInt32)} (s : Station σ)
    (h : ∀ rate ∈ rates, rate.1 ≠ s.client.user) (calls : List Link.Call) :
    (s.on (calls, s.line)).observeAll link.logged seen rates =
      (s.observeAll link seen rates).on
        ((fetches s.ledger.issuance rates).reverse ++ calls, (s.observeAll link seen rates).line) := by
  induction rates generalizing s calls with
  | nil => rfl
  | cons rate rates ih =>
    have hframe := Restocks.observe link (seen rate.1) s rate
    have hone : (s.on (calls, s.line)).observe link.logged (seen rate.1) rate =
        (s.observe link (seen rate.1) rate).on ((fetches s.ledger.issuance [rate]).reverse ++ calls,
          (s.observe link (seen rate.1) rate).line) := by
      simp only [observe, on, if_neg (h rate List.mem_cons_self), Ledger.observe_logged]
    have hrest := ih (s.observe link (seen rate.1) rate)
      (fun other hother => hframe.user_eq ▸ h other (List.mem_cons_of_mem _ hother))
      ((fetches s.ledger.issuance [rate]).reverse ++ calls)
    rw [observeAll_cons, observeAll_cons, hone, hrest, hframe.issuance, ← List.append_assoc, ← List.reverse_append,
      ← Ledger.fetches_cons]

theorem contacts_observe (link : Link σ) (now : UInt64) (rate : String × UInt32) (s : Station σ)
    (h : rate.1 ≠ s.client.user) (user : String) :
    ∃ held, (s.observe link now rate).ledger.contacts[user]? =
      if rate.1 = user then some
        { user := rate.1, rate := rate.2, priority := .ofRate rate.2, held, lastSeen := now }
      else s.ledger.contacts[user]? := by
  rw [observe, if_neg h]
  exact ⟨_, Ledger.contacts_observe link now rate.1 user rate.2 s.ledger s.client.inventory s.line⟩

/-- Observing others leaves a user's entry alone. -/
theorem contacts_observeAll_of_not_mem {rates : List (String × UInt32)} {user : String} (s : Station σ)
    (h : user ∉ rates.map (·.1)) :
    (s.observeAll link seen rates).ledger.contacts[user]? = s.ledger.contacts[user]? := by
  induction rates generalizing s with
  | nil => rfl
  | cons rate rates ih =>
    rw [List.map_cons, List.mem_cons, not_or] at h
    rw [observeAll_cons, ih _ h.2]
    by_cases hself : rate.1 = s.client.user
    · rw [observe, if_pos hself]
    · obtain ⟨held, hone⟩ := contacts_observe link (seen rate.1) rate s hself user
      rw [hone, if_neg (Ne.symm h.1)]

/-- **Whoever is observed** is a contact with that rate, seen then. -/
theorem contacts_observeAll (link : Link σ) (seen : String → UInt64) {rates : List (String × UInt32)}
    (hnodup : (rates.map (·.1)).Nodup) (s : Station σ) (h : ∀ rate ∈ rates, rate.1 ≠ s.client.user)
    {rate : String × UInt32} (hrate : rate ∈ rates) :
    ∃ held, (s.observeAll link seen rates).ledger.contacts[rate.1]? = some
      { user := rate.1, rate := rate.2, priority := .ofRate rate.2, held, lastSeen := seen rate.1 } := by
  induction rates generalizing s with
  | nil => cases hrate
  | cons first rates ih =>
    obtain ⟨hnew, hnodup⟩ := List.nodup_cons.1 hnodup
    rw [observeAll_cons]
    rcases List.mem_cons.1 hrate with rfl | hrate
    · obtain ⟨held, hone⟩ := contacts_observe link (seen rate.1) rate s (h rate List.mem_cons_self) rate.1
      refine ⟨held, ?_⟩
      rw [contacts_observeAll_of_not_mem _ hnew, hone, if_pos rfl]
    · exact ih hnodup _ (fun other hother =>
        (Restocks.observe link (seen first.1) s first).user_eq ▸ h other (List.mem_cons_of_mem _ hother)) hrate

/-! ## Parts of a cycle -/

theorem ne_user_of_mem_observed {rate : String × UInt32} (h : rate ∈ s.observed) : rate.1 ≠ s.client.user := by
  have hkept := (List.mem_filter.1 h).2
  exact of_decide_eq_true hkept

/-- Nobody is observed twice. -/
theorem nodup_observed (s : Station σ) : (s.observed.map (·.1)).Nodup :=
  (Tracker.nodup_users _).sublist (List.filter_sublist.map _)

theorem mint_logged (hseed : s.client.nextSeed? now = some seed) (link : Link σ) (calls : List Link.Call) :
    (s.on (calls, s.line)).mint link.logged now =
      ((s.mint link now).1,
        (s.mint link now).2.on ((s.client.publication seed).reverse ++ calls, (s.mint link now).2.line)) := by
  simp only [mint, on, Client.mintBatch_logged hseed]

theorem replenish_logged (link : Link σ) (seen : String → UInt64) (s : Station σ) (calls : List Link.Call) :
    (s.on (calls, s.line)).replenish link.logged seen =
      (s.replenish link seen).on
        ((fetches s.ledger.issuance s.observed).reverse ++ calls, (s.replenish link seen).line) := by
  have hother : ∀ rate ∈ s.observed, rate.1 ≠ s.client.user := fun _ hrate => ne_user_of_mem_observed hrate
  rw [replenish_eq, replenish_eq]
  exact observeAll_logged link seen { s with tracker := s.tracker.snapshot.2 } hother calls

/-- The user stays, and the seed is used up. -/
theorem client_mint (hseed : s.client.nextSeed? now = some seed) (link : Link σ) :
    (s.mint link now).2.client.user = s.client.user ∧ (s.mint link now).2.client.lastSeed = seed :=
  (Client.Minting.mk s.client now s.line seed hseed).after_eq link

theorem observed_mint (hseed : s.client.nextSeed? now = some seed) (link : Link σ) :
    (s.mint link now).2.observed = s.observed := by
  unfold observed
  rw [(client_mint hseed link).1]
  rfl

theorem maintain?_of_seed (hideal : s.device.isIdeal = true) (hseed : s.client.nextSeed? clock.seed = some seed)
    (link : Link σ) (maxIdle : Nat) :
    s.maintain? link clock maxIdle =
      some (((s.mint link clock.seed).2.replenish link clock.seen).collect clock.collection maxIdle) := by
  have hne := Client.mintBatch_ne_exhausted hseed link s.line
  unfold maintain?
  rw [if_pos hideal]
  split
  · next u hmint => exact absurd (congrArg Prod.fst hmint) hne
  · next result u _ hmint => rw [hmint]

/-! ## Cycles -/

/-- What a cycle does under ideal conditions, with a seed left, whenever the clock is read. -/
structure Cycles (link : Link σ) (clock : Readings) (maxIdle : Nat) (seed : UInt64) (s t : Station σ) : Prop where
  /-- It makes the calls for the batch and for those who are observed, and no others. They are settled before the first
  of them is made: neither the link nor an answer has a part in them, nor the clock once the seed is taken. -/
  calls : ∀ calls, (s.on (calls, s.line)).maintain? link.logged clock maxIdle =
    some (t.on ((s.client.publication seed ++ fetches s.ledger.issuance s.observed).reverse ++ calls, t.line))
  /-- It mints once, observes everyone once, in the order of the users, and collects the idle at the end. -/
  course : t = (observeAll link clock.seen s.observed
    { (s.mint link clock.seed).2 with tracker := s.tracker.snapshot.2 }).collect clock.collection maxIdle
  /-- The seed is used up. -/
  lastSeed : t.client.lastSeed = seed
  /-- The tracker starts a period. -/
  tracker : t.tracker = s.tracker.snapshot.2
  /-- Whoever was observed is a contact with that rate, seen then, unless the cycle took so long that the contact is
  idle at the collection. -/
  observed : ∀ rate ∈ s.observed, ∃ held,
    let contact : Contact :=
      { user := rate.1, rate := rate.2, priority := .ofRate rate.2, held, lastSeen := clock.seen rate.1 }
    t.ledger.contacts[rate.1]? = some (settle clock.collection maxIdle contact) ∧
      (elapsed (clock.seen rate.1) clock.collection ≤ maxIdle → t.ledger.contacts[rate.1]? = some contact)
  /-- The other contacts are settled. -/
  others : ∀ user, user ∉ s.observed.map (·.1) →
    t.ledger.contacts[user]? = s.ledger.contacts[user]?.map (settle clock.collection maxIdle)
  /-- Nobody is left idle. -/
  idle : t.ledger.idleUsers clock.collection maxIdle = []
  /-- The user, the table, the device and the random octets stay. -/
  user : t.client.user = s.client.user
  issuance : t.ledger.issuance = s.ledger.issuance
  device : t.device = s.device
  random : t.random = s.random

/-- What a cycle does under other conditions. -/
structure Rests (link : Link σ) (clock : Readings) (maxIdle : Nat) (s t : Station σ) : Prop where
  /-- It makes no calls. -/
  calls : ∀ calls, (s.on (calls, s.line)).maintain? link.logged clock maxIdle = some (t.on (calls, s.line))
  line : t.line = s.line
  /-- It uses up no seed and leaves the messages of the period to the next; only contacts and cache may change. -/
  restocks : Restocks s t
  /-- The contacts are settled. -/
  contacts : ∀ user : String,
    t.ledger.contacts[user]? = s.ledger.contacts[user]?.map (settle clock.collection maxIdle)
  /-- Nobody is left idle. -/
  idle : t.ledger.idleUsers clock.collection maxIdle = []

theorem contacts_collect (now : UInt64) (maxIdle : Nat) (s : Station σ) (user : String) :
    (s.collect now maxIdle).ledger.contacts[user]? = s.ledger.contacts[user]?.map (settle now maxIdle) :=
  Ledger.contacts_collectIdle now maxIdle s.ledger s.client.inventory user

/-- **A cycle under ideal conditions**, with a seed left. -/
theorem cycles (hideal : s.device.isIdeal = true) (hseed : s.client.nextSeed? clock.seed = some seed) (link : Link σ)
    (maxIdle : Nat) : ∃ t, s.maintain? link clock maxIdle = some t ∧ Cycles link clock maxIdle seed s t := by
  have hcourse : (s.mint link clock.seed).2.replenish link clock.seen = observeAll link clock.seen s.observed
      { (s.mint link clock.seed).2 with tracker := s.tracker.snapshot.2 } := by
    rw [replenish_eq, observed_mint hseed]
    rfl
  obtain ⟨huser, hlast⟩ := client_mint hseed link
  have hother : ∀ rate ∈ s.observed, rate.1 ≠ (s.mint link clock.seed).2.client.user := by
    intro rate hrate
    rw [huser]
    exact ne_user_of_mem_observed hrate
  have hframe := (Restocks.observeAll link clock.seen s.observed
    { (s.mint link clock.seed).2 with tracker := s.tracker.snapshot.2 }).trans
      (Restocks.collect clock.collection maxIdle _)
  refine ⟨_, maintain?_of_seed hideal hseed link maxIdle, ?_⟩
  rw [hcourse]
  constructor
  · intro calls
    have hmint := mint_logged hseed link calls
    rw [maintain?_of_seed (s := s.on (calls, s.line)) hideal hseed, hmint]
    simp only
    rw [replenish_logged, observed_mint hseed, hcourse, List.reverse_append, List.append_assoc]
    rfl
  · rfl
  · exact hframe.lastSeed_eq.trans hlast
  · exact hframe.tracker
  · intro rate hrate
    obtain ⟨held, hcontact⟩ := contacts_observeAll link clock.seen (nodup_observed s)
      { (s.mint link clock.seed).2 with tracker := s.tracker.snapshot.2 } hother hrate
    refine ⟨held, ?_⟩
    rw [contacts_collect, hcontact, Option.map_some]
    refine ⟨rfl, fun hrecent => ?_⟩
    exact congrArg some (Ledger.settle_of_recent hrecent)
  · intro user huser
    rw [contacts_collect, contacts_observeAll_of_not_mem _ huser]
    rfl
  · exact Ledger.idleUsers_collectIdle clock.collection maxIdle _ _
  · exact hframe.user_eq.trans huser
  · exact hframe.issuance
  · exact hframe.device
  · exact hframe.random

/-- **A cycle under other conditions.** -/
theorem rests (hideal : s.device.isIdeal = false) (link : Link σ) (clock : Readings) (maxIdle : Nat) :
    ∃ t, s.maintain? link clock maxIdle = some t ∧ Rests link clock maxIdle s t := by
  have hmaintain : ∀ {τ : Type} (link : Link τ) (line : τ),
      (s.on line).maintain? link clock maxIdle = some ((s.collect clock.collection maxIdle).on line) := by
    intro τ link line
    exact if_neg fun hyes => Bool.false_ne_true (hideal.symm.trans hyes)
  refine ⟨_, hmaintain link s.line, ?_⟩
  constructor
  · intro calls
    exact hmaintain link.logged (calls, s.line)
  · rfl
  · exact Restocks.collect clock.collection maxIdle s
  · exact contacts_collect clock.collection maxIdle s
  · exact Ledger.idleUsers_collectIdle clock.collection maxIdle _ _

/-- **Without a seed left** a cycle breaks off. -/
theorem maintain?_of_exhausted (hideal : s.device.isIdeal = true) (hseed : s.client.nextSeed? clock.seed = none)
    (link : Link σ) (maxIdle : Nat) : s.maintain? link clock maxIdle = none := by
  have hmint : s.client.mintBatch link clock.seed s.line = (.error .seedsExhausted, s.client, s.line) := by
    rw [Client.mintBatch, hseed]
  simp only [maintain?, if_pos hideal, mint, hmint]

end Station

end CoinRelay
