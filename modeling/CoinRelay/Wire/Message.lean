import CoinRelay.Coin
import CoinRelay.Packet
import CoinRelay.Wire.Frame

/-!
# Messages

What clients ask of a broker and what it answers, and the bodies that carry it.

- `Message.body` and `Message.decode`: the body of a message, and the message that a body of an opcode holds;
- `Message.toFrame` and `Message.ofFrame`: the same for whole frames.
-/

namespace CoinRelay.Wire

open Cbor

/-! ## Parts of messages -/

/-- Asks for a coin of a tier that the user minted. -/
structure FetchRequest where
  user : String
  tier : Tier
  deriving DecidableEq, Repr

/-- Asks for what is kept under a user's name. -/
structure UserRequest where
  user : String
  deriving DecidableEq, Repr

/-- How many coins of a batch were listed, and how many were listed already. -/
structure PublishAck where
  accepted : UInt32 := 0
  duplicates : UInt32 := 0
  deriving DecidableEq, Repr, Inhabited

/-- Why a request was not carried out. -/
structure Refusal where
  code : UInt16
  message : String
  deriving DecidableEq, Repr

namespace Refusal

/-- The body cannot be read, or a record in it is not valid. -/
def invalidPayload (message : String) : Refusal := { code := 1, message }

/-- A reply was sent as a request. -/
def unexpectedOpcode (o : Opcode) : Refusal :=
  { code := 2, message := s!"opcode {octetText o.code} is not a request" }

/-- The broker itself failed. -/
def internal (message : String) : Refusal := { code := 3, message }

end Refusal

instance : Record FetchRequest where
  fields := [⟨"user", .text⟩, ⟨"coin", .tier⟩]
  toScalars r := [.text r.user, .tier r.tier]
  ofScalars?
    | [.text user, .tier tier] => some { user, tier }
    | _ => none

instance : Record UserRequest where
  fields := [⟨"user", .text⟩]
  toScalars r := [.text r.user]
  ofScalars?
    | [.text user] => some { user }
    | _ => none

instance : Record PublishAck where
  fields := [⟨"accepted", .number 32⟩, ⟨"duplicates", .number 32⟩]
  toScalars a := [.number a.accepted.toNat, .number a.duplicates.toNat]
  ofScalars?
    | [.number accepted, .number duplicates] =>
      some { accepted := UInt32.ofNat accepted, duplicates := UInt32.ofNat duplicates }
    | _ => none

instance : Record Tier.Counts where
  fields := [⟨"gold", .number 32⟩, ⟨"silver", .number 32⟩, ⟨"bronze", .number 32⟩]
  toScalars c := [.number c.gold.toNat, .number c.silver.toNat, .number c.bronze.toNat]
  ofScalars?
    | [.number gold, .number silver, .number bronze] =>
      some { gold := UInt32.ofNat gold, silver := UInt32.ofNat silver, bronze := UInt32.ofNat bronze }
    | _ => none

instance : Record Refusal where
  fields := [⟨"code", .number 16⟩, ⟨"message", .text⟩]
  toScalars r := [.number r.code.toNat, .text r.message]
  ofScalars?
    | [.number code, .text message] => some { code := UInt16.ofNat code, message }
    | _ => none

/-! ## Messages -/

/-- A request or a reply. -/
inductive Message
  | publish (coins : List Coin)
  | fetch (request : FetchRequest)
  | send (packet : Packet)
  | drain (request : UserRequest)
  | count (request : UserRequest)
  | publishAck (ack : PublishAck)
  | coinGranted (coin : Coin)
  | notFound
  | sendAck
  | mailbox (packets : List Packet)
  | counts (held : Tier.Counts)
  | error (refusal : Refusal)
  deriving DecidableEq, Repr

namespace Message

/-- The opcode of a message. -/
def opcode : Message → Opcode
  | publish _ => .publish
  | fetch _ => .fetch
  | send _ => .send
  | drain _ => .drain
  | count _ => .count
  | publishAck _ => .publishAck
  | coinGranted _ => .coinGranted
  | notFound => .notFound
  | sendAck => .sendAck
  | mailbox _ => .mailbox
  | counts _ => .counts
  | error _ => .error

/-- The body of a message. -/
def body : Message → Octets
  | publish coins => writeList coins
  | fetch request => Record.write request
  | send packet => Record.write packet
  | drain request => Record.write request
  | count request => Record.write request
  | publishAck ack => Record.write ack
  | coinGranted coin => Record.write coin
  | notFound => []
  | sendAck => []
  | mailbox packets => writeList packets
  | counts c => Record.write c
  | error refusal => Record.write refusal

/-- The item at the front of a body; the octets after it are ignored. -/
def front {α : Type} (read : Reader α) (body : Octets) : Except ProtocolError α :=
  match read body with
  | .ok (a, _) => .ok a
  | .error fault => .error (.decodeFailed fault.message)

/-- Reads the body of an opcode, whatever its length. -/
def ofBody (o : Opcode) (body : Octets) : Except ProtocolError Message :=
  match o with
  | .publish => (front (readList nestingLimit) body).map publish
  | .fetch => (front (Record.read nestingLimit) body).map fetch
  | .send => (front (Record.read nestingLimit) body).map send
  | .drain => (front (Record.read nestingLimit) body).map drain
  | .count => (front (Record.read nestingLimit) body).map count
  | .publishAck => (front (Record.read nestingLimit) body).map publishAck
  | .coinGranted => (front (Record.read nestingLimit) body).map coinGranted
  | .notFound => .ok notFound
  | .sendAck => .ok sendAck
  | .mailbox => (front (readList nestingLimit) body).map mailbox
  | .counts => (front (Record.read nestingLimit) body).map counts
  | .error => (front (Record.read nestingLimit) body).map error

/-- The message that a body of an opcode holds. -/
def decode (o : Opcode) (body : Octets) : Except ProtocolError Message :=
  if maxPayload < body.length then .error (.payloadTooLarge body.length maxPayload) else ofBody o body

/-- The frame of a message. -/
def toFrame (m : Message) : Frame := { opcode := m.opcode.code, payload := m.body }

/-- The message in a frame. -/
def ofFrame (f : Frame) : Except ProtocolError Message :=
  match Opcode.ofCode? f.opcode with
  | some o => decode o f.payload
  | none => .error (.unknownOpcode f.opcode)

end Message

end CoinRelay.Wire
