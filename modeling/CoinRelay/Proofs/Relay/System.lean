import CoinRelay.Client
import CoinRelay.Contact.Ledger
import CoinRelay.Link.Direct
import Mathlib.Logic.Function.Basic

/-!
# Relays

Any number of members, each a client with its ledger, that call one broker at hand. They act one at a time and in any
order; between their acts the broker may purge its listings and its clock may be set.

- `Member.act`: what a member does, and what of it can be told (`Event`);
- `Relay.step`, `Relay.run`: a step of one of the members or of the broker, and steps one after the other;
- `Relay.SeedsFit`: no batch of a run is minted from a seed above the last that an identifier holds;
- `Event.sentTo`, `Event.deliveredTo`: the packets sent to a user, and those that mail checks delivered.
-/

namespace CoinRelay

open Client

/-! ## Members -/

/-- A client, and what it knows of its contacts. -/
structure Member where
  client : Client
  ledger : Ledger := {}

/-- What a member does. -/
inductive Act
  | mint (now : UInt64)
  | observe (now : UInt64) (user : String) (rate : UInt32)
  | fetch (user : String) (tier : Tier)
  | send (recipient text : String) (tier : Tier) (random : Supply UInt8)
  | checkMail
  | discard (owner : String) (keyId : KeyId)
  | evict
  | purge (owner : String)
  | collectIdle (now : UInt64) (maxIdle : Nat)
  | collect (user : String)

/-- What can be told of an act: the packets of a message that was sent, and what a mail check came to. -/
inductive Event
  | sent (recipient : String) (packets : List Packet)
  | checked (user : String) (result : Except ClientError MailReport)
  | other

/-- The packet of a call, if it sends one. -/
def Link.Call.packet? : Link.Call → Option Packet
  | send packet => some packet
  | _ => none

/-- The event of a message: the packets of the calls it took, if it was sent. -/
def Event.ofSend (recipient : String) (result : Except ClientError KeyId) (calls : List Link.Call) : Event :=
  match result with
  | .ok _ => sent recipient (calls.filterMap Link.Call.packet?)
  | .error _ => other

namespace Member

/-- The user that a member is. -/
def user (m : Member) : String := m.client.user

/-- What a member holds. -/
def inventory (m : Member) : Inventory := m.client.inventory

/-- Replaces what a member holds. -/
def withInventory (inventory : Inventory) (m : Member) : Member := { m with client := { m.client with inventory } }

/-- Lets a member act on a broker. -/
def act (a : Act) (m : Member) (b : Broker) : Event × Member × Broker :=
  match a with
  | .mint now =>
    let (_, client, b) := m.client.mintBatch .direct now b
    (.other, { m with client }, b)
  | .observe now user rate =>
    let (_, ledger, inventory, b) := m.ledger.observe .direct now user rate m.inventory b
    (.other, { m with ledger }.withInventory inventory, b)
  | .fetch user tier =>
    let (_, inventory, b) := Ledger.fetchOne .direct user tier m.inventory b
    (.other, m.withInventory inventory, b)
  | .send recipient text tier random =>
    let (result, _, client, calls, b) := m.client.send Link.direct.logged recipient text tier random ([], b)
    (.ofSend recipient result calls, { m with client }, b)
  | .checkMail =>
    let (result, client, b) := m.client.checkMail .direct b
    (.checked m.user result, { m with client }, b)
  | .discard owner keyId => (.other, m.withInventory (m.inventory.onCache (·.discard owner keyId)).2, b)
  | .evict => (.other, m.withInventory (m.inventory.onCache (·.evict)).2, b)
  | .purge owner => (.other, m.withInventory (m.inventory.onCache (·.purge owner)).2, b)
  | .collectIdle now maxIdle =>
    let (_, ledger, inventory) := m.ledger.collectIdle now maxIdle m.inventory
    (.other, { m with ledger }.withInventory inventory, b)
  | .collect user =>
    let (_, ledger, inventory) := m.ledger.collect? user m.inventory
    (.other, { m with ledger }.withInventory inventory, b)

end Member

/-! ## Relays -/

/-- A broker and `n` members. -/
structure Relay (n : Nat) where
  broker : Broker
  members : Fin n → Member

/-- A step of a relay. -/
inductive Step (n : Nat)
  | act (i : Fin n) (a : Act)
  | purge (now : UInt64)
  | clock (reading : Clock)

namespace Relay

variable {n : Nat}

/-- Replaces one member and the broker. -/
def replace (i : Fin n) (m : Member) (broker : Broker) (r : Relay n) : Relay n :=
  { broker, members := Function.update r.members i m }

/-- Makes a step. -/
def step (s : Step n) (r : Relay n) : Event × Relay n :=
  match s with
  | .act i a =>
    let (event, m, b) := (r.members i).act a r.broker
    (event, r.replace i m b)
  | .purge now => (.other, { r with broker := (r.broker.purge now).2 })
  | .clock reading => (.other, { r with broker := { r.broker with clock := reading } })

/-- Makes steps one after the other; gives their events. -/
def run : List (Step n) → Relay n → List Event × Relay n
  | [], r => ([], r)
  | s :: steps, r =>
    let (event, r) := r.step s
    let (events, r) := run steps r
    (event :: events, r)

/-- A relay at its beginning: members with names of their own and nothing in their inventories, and a broker for
single use that lists nothing and keeps no packets. -/
structure Initial (r : Relay n) : Prop where
  names : Function.Injective fun i => (r.members i).user
  inventory : ∀ i, ∃ ceiling sealer, (r.members i).inventory = .empty ceiling sealer
  dispense : r.broker.config.dispense = .singleUse
  listings : r.broker.listings = .empty
  mailboxes : r.broker.mailboxes = .empty

/-- A step mints from no seed but one that identifiers hold. -/
def SeedFits (s : Step n) (r : Relay n) : Prop :=
  match s with
  | .act i (.mint now) => ∀ seed, (r.members i).client.nextSeed? now = some seed → seed ≤ KeyId.maxSeed
  | _ => True

/-- No step of a run mints from another seed. -/
def SeedsFit : List (Step n) → Relay n → Prop
  | [], _ => True
  | s :: steps, r => r.SeedFits s ∧ SeedsFit steps (r.step s).2

end Relay

/-! ## Events -/

namespace Event

/-- The packets of the messages that were sent to a user. -/
def sentTo (user : String) (events : List Event) : List Packet :=
  events.flatMap fun
    | sent recipient packets => if recipient = user then packets else []
    | _ => []

/-- The packets that the mail checks of a user delivered. -/
def deliveredTo (user : String) (events : List Event) : List Packet :=
  events.flatMap fun
    | checked checker (.ok report) => if checker = user then report.delivered else []
    | _ => []

/-- A mail check came to a report without packets whose secret is not there. -/
def AllKeysFound : Event → Prop
  | checked _ result => ∃ report, result = .ok report ∧ report.missingKey = []
  | _ => True

end Event

end CoinRelay
