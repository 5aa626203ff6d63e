import CoinRelay.Activity.Session
import CoinRelay.Proofs.Activity.Cycle

/-!
# Accounts of messages

Cycles, messages and mail checks follow one another in any order, while the device and the other end of the line change
(`Step`). What that is to the tracker is a history of messages and snapshots (`history`), and every message is counted
in the observations of one cycle, the next that makes any, or waits for it (`Accounts`). Together with what one cycle
does this is `calls_fixed_by_tracker`.

- `Step.tracker_after`, `tracker_run`: the tracker follows the history;
- `observations`, `observations_eq`: the rates that the cycles of a run observe;
- `Observes`, `accounts`: which these are.
-/

namespace CoinRelay

namespace Client

variable {σ : Type} (link : Link σ)

/-- Sending does not change who the user is. -/
theorem user_send (recipient text : String) (tier : Tier) (random : Supply UInt8) (c : Client) (s : σ) :
    (c.send link recipient text tier random s).2.2.1.user = c.user := by
  unfold send
  simp only
  split
  · rfl
  · split <;> rfl

theorem user_checkMail (c : Client) (s : σ) : (c.checkMail link s).2.1.user = c.user := by
  unfold checkMail
  split <;> rfl

end Client

namespace Station

open Tracker (Event Reflects Reports histories reports lastBaseline? messages)

variable {σ : Type} {link : Link σ} {s : Station σ} {past : List Event}

/-! ## Steps -/

/-- What happens to a station: a cycle of maintenance, a message of the console, a mail check, other conditions of the
device, and whatever happens at the other end of the line. -/
inductive Step (σ : Type)
  | cycle (clock : Readings) (maxIdle : Nat)
  | send (recipient text : String)
  | listen
  | device (conditions : Device)
  | line (change : σ → σ)

namespace Step

/-- The station after a step. A cycle that breaks off leaves it as it was. -/
def after (link : Link σ) (step : Step σ) (s : Station σ) : Station σ :=
  match step with
  | cycle clock maxIdle => (s.maintain? link clock maxIdle).getD s
  | send recipient text => s.send link recipient text
  | listen => s.listen link
  | device conditions => { s with device := conditions }
  | line change => { s with line := change s.line }

/-- The rates that a step observes: those of a cycle under ideal conditions, with a seed left. -/
def observation? (step : Step σ) (s : Station σ) : Option (List (String × UInt32)) :=
  match step with
  | cycle clock _ => if s.device.isIdeal ∧ (s.client.nextSeed? clock.seed).isSome then some s.observed else none
  | send _ _ | listen | device _ | line _ => none

/-- What a step is to the tracker: a cycle that observes takes a snapshot, and a message that the broker took is
counted. -/
def events (link : Link σ) (step : Step σ) (s : Station σ) : List Event :=
  match step with
  | cycle clock _ => if s.device.isIdeal ∧ (s.client.nextSeed? clock.seed).isSome then [.snapshot] else []
  | send recipient text =>
    match (s.client.send link recipient text s.device.tier s.random s.line).1 with
    | .ok _ => [.message recipient]
    | .error _ => []
  | listen | device _ | line _ => []

/-- **A step** is to the tracker what its events are, and the user stays. -/
theorem tracker_after (link : Link σ) (step : Step σ) (s : Station σ) :
    (step.after link s).tracker = Tracker.run (step.events link s) s.tracker ∧
      (step.after link s).client.user = s.client.user := by
  cases step with
  | cycle clock maxIdle =>
    by_cases hideal : s.device.isIdeal = true
    · cases hseed : s.client.nextSeed? clock.seed with
      | some seed =>
        obtain ⟨t, hmaintain, ht⟩ := cycles hideal hseed link maxIdle
        simp only [after, events, hmaintain, hideal, hseed]
        exact ⟨ht.tracker, ht.user⟩
      | none =>
        simp only [after, events, maintain?_of_exhausted hideal hseed, hseed]
        exact ⟨by simp [Tracker.run], rfl⟩
    · obtain ⟨t, hmaintain, ht⟩ := rests (Bool.not_eq_true _ ▸ hideal) link clock maxIdle
      simp only [after, events, hmaintain, hideal]
      exact ⟨ht.restocks.tracker, ht.restocks.user_eq⟩
  | send recipient text =>
    have huser := Client.user_send link recipient text s.device.tier s.random s.client s.line
    simp only [after, events, Station.send]
    cases (s.client.send link recipient text s.device.tier s.random s.line).1 <;> exact ⟨rfl, huser⟩
  | listen => exact ⟨rfl, Client.user_checkMail link s.client s.line⟩
  | device conditions => exact ⟨rfl, rfl⟩
  | line change => exact ⟨rfl, rfl⟩

/-- What a step observes is what the snapshots among its events report, the user's own apart. -/
theorem observation?_eq (link : Link σ) (step : Step σ) (s : Station σ) :
    (step.observation? s).toList =
      (reports (step.events link s) s.tracker).map (·.filter (·.1 ≠ s.client.user)) := by
  cases step with
  | cycle clock maxIdle =>
    simp only [observation?, events]
    split <;> rfl
  | send recipient text =>
    simp only [observation?, events]
    split <;> rfl
  | listen | device conditions | line change => rfl

end Step

/-! ## Runs -/

/-- The station after steps, one after the other. -/
def run (link : Link σ) (steps : List (Step σ)) (s : Station σ) : Station σ :=
  steps.foldl (fun s step => step.after link s) s

/-- What steps are to the tracker. -/
def history (link : Link σ) : List (Step σ) → Station σ → List Event
  | [], _ => []
  | step :: steps, s => step.events link s ++ history link steps (step.after link s)

/-- The rates that the cycles among steps observe. -/
def observations (link : Link σ) : List (Step σ) → Station σ → List (List (String × UInt32))
  | [], _ => []
  | step :: steps, s => (step.observation? s).toList ++ observations link steps (step.after link s)

/-- **The tracker follows the history.** -/
theorem tracker_run (link : Link σ) (steps : List (Step σ)) (s : Station σ) :
    (run link steps s).tracker = Tracker.run (history link steps s) s.tracker := by
  induction steps generalizing s with
  | nil => rfl
  | cons step steps ih =>
    have hrest := ih (step.after link s)
    rw [(step.tracker_after link s).1] at hrest
    rw [history, Tracker.run_append]
    exact hrest

/-- **The cycles of a run** observe what the snapshots of its history report, the user's own rates apart. -/
theorem observations_eq (link : Link σ) (steps : List (Step σ)) (s : Station σ) :
    observations link steps s =
      (reports (history link steps s) s.tracker).map (·.filter (·.1 ≠ s.client.user)) := by
  induction steps generalizing s with
  | nil => rfl
  | cons step steps ih =>
    obtain ⟨htracker, huser⟩ := step.tracker_after link s
    rw [observations, history, Tracker.reports_append, List.map_append, ih, htracker, huser, step.observation?_eq link]

/-! ## Accounts -/

/-- What is observed after events: in the order of the users, everyone but the user who has a baseline or was written to
since the last snapshot, with the sum of the two as far as 32 bits go. -/
structure Observes (user : String) (events : List Event) (rates : List (String × UInt32)) : Prop where
  ascending : (rates.map (·.1)).Pairwise (· < ·)
  mem_iff : ∀ other rate, (other, rate) ∈ rates ↔
    other ≠ user ∧ (lastBaseline? other events ≠ none ∨ 0 < messages other events) ∧
      rate.toNat = min (UInt32.size - 1) (((lastBaseline? other events).getD 0).toNat + messages other events)

theorem Observes.of_reports {user : String} {events : List Event} {report : List (String × UInt32)}
    (h : Reports events report) : Observes user events (report.filter (·.1 ≠ user)) := by
  constructor
  · exact h.ascending.sublist (List.filter_sublist.map _)
  · intro other rate
    rw [List.mem_filter, h.mem_iff, decide_eq_true_iff]
    exact and_comm

/-- How the messages of a run are accounted for, after events that came before it. -/
structure Accounts (link : Link σ) (past : List Event) (steps : List (Step σ)) (s : Station σ) : Prop where
  /-- Each cycle observes what came before it. -/
  observations : List.Forall₂ (Observes s.client.user) (histories past (history link steps s))
    (observations link steps s)
  /-- Each message is counted before the cycle that observes next and before no other, or it is not yet observed. -/
  sum : ∀ user, ((histories past (history link steps s)).map (messages user)).sum +
    messages user (past ++ history link steps s) = messages user past + (history link steps s).count (.message user)
  /-- The tracker has what is not yet observed. -/
  tracker : Reflects (past ++ history link steps s) (run link steps s).tracker

/-- **Every message is accounted for**, whatever happens. -/
theorem accounts (h : Reflects past s.tracker) (link : Link σ) (steps : List (Step σ)) :
    Accounts link past steps s := by
  constructor
  · rw [observations_eq, List.forall₂_map_right_iff]
    exact (Tracker.forall₂_reports h _).imp fun _ _ hreports => .of_reports hreports
  · intro user
    exact Tracker.sum_histories user _ past
  · rw [tracker_run]
    exact h.run _

/-- **The calls of maintenance are fixed by the tracker**, whatever the client, its contacts and its device are, and
whatever the link answers and the clock reads. Under ideal conditions, a cycle with a seed left makes the calls for one
batch and for the contacts that the tracker reports, in their order; under other conditions it makes none, uses up no
seed and leaves the tracker alone. Either way the idle contacts are collected at the end. Only without a seed left does
an ideal cycle break off. In any run of cycles, messages and mail checks, each message that was taken is counted in what
one cycle observes, or in what the next is to observe. -/
theorem calls_fixed_by_tracker (link : Link σ) (s : Station σ) :
    (∀ clock maxIdle, s.device.isIdeal = false →
      ∃ t, s.maintain? link clock maxIdle = some t ∧ Rests link clock maxIdle s t) ∧
    (∀ (clock : Readings) maxIdle seed, s.device.isIdeal = true → s.client.nextSeed? clock.seed = some seed →
      ∃ t, s.maintain? link clock maxIdle = some t ∧ Cycles link clock maxIdle seed s t) ∧
    (∀ (clock : Readings) maxIdle, s.device.isIdeal = true → s.client.nextSeed? clock.seed = none →
      s.maintain? link clock maxIdle = none) ∧
    ∀ past steps, Reflects past s.tracker → Accounts link past steps s := by
  refine ⟨?_, ?_, ?_, ?_⟩
  · intro clock maxIdle hideal
    exact rests hideal link clock maxIdle
  · intro clock maxIdle seed hideal hseed
    exact cycles hideal hseed link maxIdle
  · intro clock maxIdle hideal hseed
    exact maintain?_of_exhausted hideal hseed link maxIdle
  · intro past steps h
    exact accounts h link steps

/-! ## Bob, who writes to Ada -/

/-- A station whose mint gives one key a batch. Ada is reported as a mate before anything was sent to her. -/
def bob : Station Broker where
  client := { Client.novice with user := "bob", issuance := { mint := ⟨0, 0, 1⟩ } }
  tracker := .ofBaseline [("ada", 5)]
  random := .counting
  line := Ledger.market

/-- A clock that moves on while a cycle lasts. -/
def ticking (now : UInt64) : Readings := { seed := now, seen := fun _ => now + 1, collection := now + 2 }

/-- Bob writes to Ada after a cycle, which another cycle observes as soon as there is power again. -/
theorem calls_fixed_by_tracker_bob :
    let steps :=
      [.cycle (ticking 7) 60, .send "ada" "hi", .device { battery := 10 }, .cycle (ticking 8) 60, .device {},
        .cycle (ticking 9) 60]
    (bob.client.publication 7 ++ Ledger.fetches bob.ledger.issuance bob.observed =
        .publish (bob.client.coins 7) ::
          (List.replicate 6 (.fetch "ada" .silver) ++ List.replicate 4 (.fetch "ada" .bronze)) ∧
      ∃ t, bob.maintain? Link.direct (ticking 7) 60 = some t ∧ Cycles Link.direct (ticking 7) 60 7 bob t) ∧
    (∃ t, { bob with device := { battery := 10 } }.maintain? Link.direct (ticking 8) 60 = some t ∧
      Rests Link.direct (ticking 8) 60 { bob with device := { battery := 10 } } t) ∧
    history Link.direct steps bob = [.snapshot, .message "ada", .snapshot] ∧
    observations Link.direct steps bob = [[("ada", 5)], [("ada", 6)]] ∧
    Accounts Link.direct [.baseline "ada" 5] steps bob := by
  intro steps
  have hpast : Reflects [.baseline "ada" 5] bob.tracker := Reflects.empty.run [.baseline "ada" 5]
  have hcycles := (calls_fixed_by_tracker Link.direct bob).2.1 (ticking 7) 60 7 rfl (by decide +kernel)
  have hrests := (calls_fixed_by_tracker Link.direct { bob with device := { battery := 10 } }).1
    (ticking 8) 60 rfl
  refine ⟨⟨by decide +kernel, hcycles⟩, hrests, by decide +kernel, by decide +kernel, ?_⟩
  exact (calls_fixed_by_tracker Link.direct bob).2.2.2 _ steps hpast

/-- Bob with the last seed used up. -/
def spent : Station (Link.Logged Broker) :=
  { bob with client := { bob.client with lastSeed := 18446744073709551615 } }.on ([], Ledger.market)

/-- Without a seed left, Ada's coins are not fetched, and maintenance is never due again. -/
theorem not_replenished_spent :
    spent.device.isIdeal = true ∧
      Ledger.fetches spent.ledger.issuance spent.observed =
        List.replicate 6 (.fetch "ada" .silver) ++ List.replicate 4 (.fetch "ada" .bronze) ∧
      let session : Session (Link.Logged Broker) := { station := spent, epoch := 0, phase := .running }
      let after := session.maintain { link := Link.direct.logged, tell := fun _ line => line }
      after.station.line.1 = [] ∧ after.maintenanceDue = none := by
  have hnone : spent.maintain? Link.direct.logged (.constant 0) 2592000 = none :=
    maintain?_of_exhausted rfl (by decide +kernel) Link.direct.logged 2592000
  refine ⟨rfl, by decide +kernel, ?_⟩
  intro session after
  have hafter : after = { session with maintenanceDue := none } := by
    show session.maintain _ = _
    unfold Session.maintain
    have hbroken : session.station.maintain? Link.direct.logged (.constant session.now) session.timing.maxIdle = none :=
      hnone
    rw [hbroken]
  rw [hafter]
  exact ⟨rfl, rfl⟩

end Station

end CoinRelay
