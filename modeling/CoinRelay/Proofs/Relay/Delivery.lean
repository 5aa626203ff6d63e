import CoinRelay.Proofs.Client.Mail
import CoinRelay.Proofs.Relay.Sound

/-!
# Every packet is delivered once

Every step keeps a relay sound and delivers each packet that it takes out of a mailbox (`Sound.step`), and so does
every run (`Sound.run`).

- `Relay.Delivers`: what waited for a user or was sent to it was delivered or waits;
- `Sound.pass`, `Sound.mint`, `Sound.checkMail`: the three kinds of acts;
- `Relay.delivers_once`: from the beginning, what was sent to a user is what was delivered, followed by what waits.
-/

namespace CoinRelay

open Client

namespace Relay

variable {n : Nat} {r : Relay n} {i : Fin n} {m : Member} {b : Broker}

/-! ## Deliveries -/

/-- The packets in the mailbox of a user. -/
def packets (user : String) (r : Relay n) : List Packet := (r.broker.mailboxes.of user).map (·.packet)

/-- From one relay to another, mail checks found every key, and what waited for a user or was sent to it was delivered
or waits. -/
structure Delivers (r : Relay n) (events : List Event) (r' : Relay n) : Prop where
  found : ∀ event ∈ events, event.AllKeysFound
  packets : ∀ user, r.packets user ++ Event.sentTo user events = Event.deliveredTo user events ++ r'.packets user

namespace Delivers

variable {r' r'' : Relay n} {events more : List Event}

theorem refl (r : Relay n) : Delivers r [] r where
  found _ h := by cases h
  packets _ := List.append_nil _

theorem trans (h : Delivers r events r') (h' : Delivers r' more r'') : Delivers r (events ++ more) r'' where
  found event he := (List.mem_append.1 he).elim (h.found event) (h'.found event)
  packets user := by
    calc r.packets user ++ Event.sentTo user (events ++ more)
        = r.packets user ++ Event.sentTo user events ++ Event.sentTo user more := by
          rw [Event.sentTo, List.flatMap_append, ← List.append_assoc]
          rfl
      _ = Event.deliveredTo user events ++ (r'.packets user ++ Event.sentTo user more) := by
          rw [h.packets, List.append_assoc]
      _ = Event.deliveredTo user (events ++ more) ++ r''.packets user := by
          rw [h'.packets, ← List.append_assoc, Event.deliveredTo, Event.deliveredTo, Event.deliveredTo,
            List.flatMap_append]

/-- A step without packets. -/
theorem other (h : ∀ user, r'.packets user = r.packets user) : Delivers r [.other] r' where
  found event he := by
    cases List.mem_singleton.1 he
    trivial
  packets user := by
    rw [h]
    exact List.append_nil _

end Delivers

/-! ## Acts -/

namespace Sound

/-- **Passing coins on** puts the packets that are sent behind those that wait for their recipients. -/
theorem pass {sent : List Packet} {event : Event} (h : r.Sound) (huser : m.user = (r.members i).user)
    (hlast : m.client.lastSeed = (r.members i).client.lastSeed)
    (hp : Passes sent ((r.members i).inventory, r.broker) (m.inventory, b)) (hfound : event.AllKeysFound)
    (hsent : ∀ user, sent.filter (·.recipient = user) = Event.sentTo user [event])
    (hnone : ∀ user, Event.deliveredTo user [event] = []) :
    (r.replace i m b).Sound ∧ Delivers r [event] (r.replace i m b) := by
  refine ⟨h.of_passes huser hlast hp, fun e he => ?_, fun user => ?_⟩
  · cases List.mem_singleton.1 he
    exact hfound
  · rw [hnone, ← hsent, List.nil_append]
    exact (hp.packets user).symm

/-- Passing coins on without a packet. -/
theorem pass_nil (h : r.Sound) (huser : m.user = (r.members i).user)
    (hlast : m.client.lastSeed = (r.members i).client.lastSeed)
    (hp : Passes [] ((r.members i).inventory, r.broker) (m.inventory, b)) :
    (r.replace i m b).Sound ∧ Delivers r [.other] (r.replace i m b) :=
  h.pass huser hlast hp trivial (fun _ => rfl) fun _ => rfl

/-- **Minting** keeps a relay sound, if the seed is one that identifiers hold. -/
theorem mint (h : r.Sound) {now : UInt64} (hseed : r.SeedFits (.act i (.mint now))) :
    (r.step (.act i (.mint now))).2.Sound ∧ Delivers r [.other] (r.step (.act i (.mint now))).2 := by
  cases hnext : (r.members i).client.nextSeed? now with
  | none =>
    have hmint : (r.members i).client.mintBatch .direct now r.broker =
        (.error .seedsExhausted, (r.members i).client, r.broker) := by
      simp only [mintBatch, hnext]
    simp only [Relay.step, Member.act, hmint]
    exact h.pass_nil rfl rfl (.refl (h.consistent i))
  | some seed =>
    obtain ⟨coins, hsub, hmints, hbacked, hpublish⟩ := of_mintBatch now (r.members i).client r.broker hnext
    simp only [Relay.step, Member.act]
    rw [hpublish]
    refine ⟨h.of_mints (lt_of_nextSeed? hnext) (fun _ hk => seed_of_mem_slotIds (hseed seed hnext) hk)
      (nodup_slotIds seed (nodup_keySlots _)) hsub hmints hbacked, .other fun user => ?_⟩
    rw [packets, Relay.replace, Broker.mailboxes_publish]
    rfl

/-- **A mail check** delivers every packet that it takes out of the mailbox. -/
theorem checkMail (h : r.Sound) (i : Fin n) :
    (r.step (.act i .checkMail)).2.Sound ∧
      Delivers r [(r.step (.act i .checkMail)).1] (r.step (.act i .checkMail)).2 := by
  obtain ⟨hcache, hvault⟩ := agreeOff_burnAll (r.broker.drain (r.members i).user).1 (r.members i).inventory
  obtain ⟨hnd, hopens⟩ := h.keyIds_drain i
  have hevent : (r.step (.act i .checkMail)).1 =
      .checked (r.members i).user (.ok { delivered := (r.broker.drain (r.members i).user).1 }) := by
    rw [← burnAll_of_opens hnd hopens]
    rfl
  refine ⟨h.of_burns hcache hvault, fun event he => ?_, fun user => ?_⟩
  · cases List.mem_singleton.1 he
    rw [hevent]
    exact ⟨_, rfl, rfl⟩
  · have hdelivered : Event.deliveredTo user [(r.step (.act i .checkMail)).1] =
        r.broker.drained (r.members i).user user := by
      rw [hevent]
      simp [Event.deliveredTo, Broker.drained, eq_comm]
    rw [hdelivered, hevent]
    exact (List.append_nil _).trans (Broker.packets_drain (r.members i).user user r.broker)

/-! ## Runs -/

/-- **Every step** keeps a relay sound and delivers the packets it takes out of a mailbox. -/
theorem step (h : r.Sound) (s : Step n) (hseed : r.SeedFits s) :
    (r.step s).2.Sound ∧ Delivers r [(r.step s).1] (r.step s).2 := by
  cases s with
  | purge now =>
    exact ⟨h.of_broker rfl fun user => Broker.outstanding_purge now r.broker user, .other fun _ => rfl⟩
  | clock reading => exact ⟨h.of_broker rfl fun _ => le_rfl, .other fun _ => rfl⟩
  | act i a =>
    have hcache := h.consistent i
    cases a with
    | mint now => exact h.mint hseed
    | observe now user rate =>
      exact h.pass_nil rfl rfl (passes_observe now user rate _ hcache h.dispense)
    | fetch user tier => exact h.pass_nil rfl rfl (passes_fetchOne user tier hcache h.dispense)
    | send recipient text tier random =>
      obtain ⟨result, random', inventory, calls, b, sent, hsend, hpasses, hsent⟩ :=
        passes_send (r.members i).client r.broker recipient text tier random hcache
      simp only [Relay.step, Member.act, hsend]
      refine h.pass rfl rfl hpasses ?_ hsent fun user => ?_
      · cases result <;> trivial
      · cases result <;> rfl
    | checkMail => exact h.checkMail i
    | discard owner keyId => exact h.pass_nil rfl rfl (.onCache _ (hcache.discard owner keyId))
    | evict => exact h.pass_nil rfl rfl (.onCache _ hcache.evict)
    | purge owner => exact h.pass_nil rfl rfl (.onCache _ (hcache.purge owner))
    | collectIdle now maxIdle => exact h.pass_nil rfl rfl (passes_collectIdle now maxIdle _ hcache)
    | collect user => exact h.pass_nil rfl rfl (passes_collect? user _ hcache)

/-- **Every run** keeps a relay sound and delivers the packets it takes out of the mailboxes. -/
theorem run (h : r.Sound) (steps : List (Step n)) (hseeds : SeedsFit steps r) :
    (r.run steps).2.Sound ∧ Delivers r (r.run steps).1 (r.run steps).2 := by
  induction steps generalizing r with
  | nil => exact ⟨h, .refl r⟩
  | cons s steps ih =>
    obtain ⟨hsound, hstep⟩ := h.step s hseeds.1
    obtain ⟨hend, hrest⟩ := ih hsound hseeds.2
    exact ⟨hend, hstep.trans hrest⟩

end Sound

/-- **Every packet is delivered once.** In every run of a relay from its beginning, every mail check finds the secrets
of all packets, and the packets that were sent to a user are those that its mail checks delivered, in the order they
were sent, followed by those in its mailbox. -/
theorem delivers_once (h : r.Initial) (steps : List (Step n)) (hseeds : SeedsFit steps r) :
    (∀ user result, Event.checked user result ∈ (r.run steps).1 →
        ∃ report, result = .ok report ∧ report.missingKey = []) ∧
      ∀ user, Event.sentTo user (r.run steps).1 =
        Event.deliveredTo user (r.run steps).1 ++ ((r.run steps).2.broker.mailboxes.of user).map (·.packet) := by
  obtain ⟨-, hrun⟩ := h.sound.run steps hseeds
  refine ⟨fun user result he => hrun.found _ he, ?_⟩
  intro user
  have hpackets := hrun.packets user
  rw [packets, h.mailboxes, Registry.of_empty] at hpackets
  exact hpackets

/-- A member with an empty inventory that mints one bronze coin a batch. -/
def newcomer (user : String) : Member where
  client :=
    { user
      issuance := { mint := ⟨0, 0, 1⟩ }
      mint := { attempts := .constant fun _ => .ok (List.replicate 32 0, List.replicate 32 0) }
      inventory := .empty defaultCeiling { key := List.replicate 32 0, nonces := .constant (.ok (List.replicate 12 0)) } }

/-- Alice and Bob at a broker for single use. -/
def couple : Relay 2 where
  broker := { config := { dispense := .singleUse }, clock := ⟨0⟩ }
  members i := newcomer (if i = 0 then "alice" else "bob")

/-- Alice mints, Bob fetches her coin and writes to her, and she checks her mail. -/
def greeting : List (Step 2) :=
  [.act 0 (.mint 5), .act 1 (.fetch "alice" .bronze), .act 1 (.send "alice" "hello" .gold (.constant 0)),
    .act 0 .checkMail]

theorem initial_couple : couple.Initial where
  names i j h := by
    revert i j
    decide
  inventory _ := ⟨_, _, rfl⟩
  dispense := rfl
  listings := rfl
  mailboxes := rfl

theorem delivers_once_greeting :
    couple.Initial ∧ SeedsFit greeting couple ∧
      Event.sentTo "alice" (couple.run greeting).1 =
        Event.deliveredTo "alice" (couple.run greeting).1 ++
          ((couple.run greeting).2.broker.mailboxes.of "alice").map (·.packet) ∧
      (Event.sentTo "alice" (couple.run greeting).1).map (·.payload) = ["hello"] ∧
      (Event.deliveredTo "alice" (couple.run greeting).1).map (·.payload) = ["hello"] := by
  have hseeds : SeedsFit greeting couple := by
    refine ⟨fun seed hseed => ?_, trivial, trivial, trivial, trivial⟩
    cases hseed
    decide
  exact ⟨initial_couple, hseeds, (delivers_once initial_couple greeting hseeds).2 "alice", by decide +kernel⟩

end Relay

end CoinRelay
