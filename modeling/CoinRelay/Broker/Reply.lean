import CoinRelay.Broker.Basic

/-!
# Replies

What a broker answers to messages, frames and raw octets. A request that cannot be read or is refused changes nothing
and is answered with a refusal.

- `Broker.handle`: the reply to a message;
- `Broker.handleFrame`: the reply to a frame, readable or not;
- `Broker.respond`: the octets of the reply to the octets of a request.
-/

namespace CoinRelay.Broker

open Wire

/-- The refusal of a request that is not valid. -/
def refuse (message : String) : Message := .error (.invalidPayload message)

/-- Answers a message. -/
def handle (request : Message) (b : Broker) : Message × Broker :=
  match request with
  | .publish coins =>
    match b.publish coins with
    | (.ok ack, b) => (.publishAck ack, b)
    | (.error e, b) => (refuse e.message, b)
  | .fetch request =>
    match b.fetch request.user request.tier with
    | (some coin, b) => (.coinGranted coin, b)
    | (none, b) => (.notFound, b)
  | .send packet =>
    match b.route packet with
    | (.ok (), b) => (.sendAck, b)
    | (.error e, b) => (refuse e.message, b)
  | .drain request =>
    let (packets, b) := b.drain request.user
    (.mailbox packets, b)
  | .count request => (.counts (b.count request.user), b)
  | reply => (.error (.unexpectedOpcode reply.opcode), b)

/-- Answers a frame. -/
def handleFrame (f : Frame) (b : Broker) : Message × Broker :=
  match Message.ofFrame f with
  | .ok request => b.handle request
  | .error e => (refuse e.message, b)

/-- Answers octets that should hold a frame. -/
def answer (request : Octets) (b : Broker) : Message × Broker :=
  match Frame.decode request with
  | .ok f => b.handleFrame f
  | .error e => (refuse e.message, b)

/-- The octets of the reply to octets, unless the reply is too long for a frame. -/
def respond (request : Octets) (b : Broker) : Except ProtocolError Octets × Broker :=
  let (reply, b) := b.answer request
  (reply.toFrame.encode, b)

end CoinRelay.Broker
