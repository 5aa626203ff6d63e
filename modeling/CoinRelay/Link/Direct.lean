import CoinRelay.Broker.Reply
import CoinRelay.Link.Basic

/-!
# Links to a broker at hand

Two links over the same state, a broker: one calls its operations, the other goes through the octets of frames as a
remote client would.

- `Link.direct`: the broker's operations, a refusal of records arriving as a rejection;
- `Link.framed`: frames the request, hands it to the broker and reads the reply.
-/

namespace CoinRelay.Link

open Wire

/-! ## The broker's operations -/

/-- A refusal of records as a rejection. -/
def rejection (e : BrokerError) : LinkError := .rejected (Refusal.invalidPayload e.message).code e.message

/-- Calls the operations of a broker. -/
def direct : Link Broker where
  publish coins b :=
    let (result, b) := b.publish coins
    (result.mapError rejection, b)
  fetch user tier b :=
    let (coin, b) := b.fetch user tier
    (.ok coin, b)
  send packet b :=
    let (result, b) := b.route packet
    (result.mapError rejection, b)
  drain user b :=
    let (packets, b) := b.drain user
    (.ok packets, b)
  count user b := (.ok (b.count user), b)

/-! ## Frames -/

/-- The message in the octets of a reply; a refusal is a rejection. -/
def interpret (reply : Octets) : Except LinkError Message :=
  match (Frame.decode reply).bind Message.ofFrame with
  | .error e => .error (.protocol e.message)
  | .ok (.error refusal) => .error (.rejected refusal.code refusal.message)
  | .ok message => .ok message

/-- Sends a request as a frame and reads the reply. A broker whose reply does not fit a frame sends no octets. -/
def exchange (request : Message) (b : Broker) : Except LinkError Message × Broker :=
  match request.toFrame.encode with
  | .error e => (.error (.protocol e.message), b)
  | .ok octets =>
    let (reply, b) := b.respond octets
    (interpret (reply.toOption.getD []), b)

/-- The error for a reply of the wrong kind. -/
def unexpected (reply : Message) : LinkError := .protocol s!"unexpected response {reply.opcode.name}"

/-- The part of a reply that answers a call. -/
def expect {α : Type} (part : Message → Option α) (reply : Except LinkError Message) : Except LinkError α :=
  reply.bind fun message =>
    match part message with
    | some a => .ok a
    | none => .error (unexpected message)

/-- Sends a request and keeps the part of the reply that answers it. -/
def call {α : Type} (request : Message) (part : Message → Option α) (b : Broker) : Except LinkError α × Broker :=
  let (reply, b) := exchange request b
  (expect part reply, b)

/-- Calls a broker through frames. -/
def framed : Link Broker where
  publish coins := call (.publish coins) fun
    | .publishAck ack => some ack
    | _ => none
  fetch user tier := call (.fetch { user, tier }) fun
    | .coinGranted coin => some (some coin)
    | .notFound => some none
    | _ => none
  send packet := call (.send packet) fun
    | .sendAck => some ()
    | _ => none
  drain user := call (.drain { user }) fun
    | .mailbox packets => some packets
    | _ => none
  count user := call (.count { user }) fun
    | .counts counts => some counts
    | _ => none

end CoinRelay.Link
