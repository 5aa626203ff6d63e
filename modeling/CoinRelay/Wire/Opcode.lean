/-!
# Opcodes

The octet of a frame that says what its body holds. Requests lie below `0x80`, replies above.
-/

namespace CoinRelay.Wire

/-- What a body holds. -/
inductive Opcode
  | publish
  | fetch
  | send
  | drain
  | count
  | publishAck
  | coinGranted
  | notFound
  | sendAck
  | mailbox
  | counts
  | error
  deriving DecidableEq, Repr, Inhabited

namespace Opcode

/-- All the opcodes, requests first. -/
def all : List Opcode :=
  [publish, fetch, send, drain, count, publishAck, coinGranted, notFound, sendAck, mailbox, counts, error]

/-- The octet of an opcode. -/
def code : Opcode → UInt8
  | publish => 0x01
  | fetch => 0x02
  | send => 0x03
  | drain => 0x04
  | count => 0x05
  | publishAck => 0x81
  | coinGranted => 0x82
  | notFound => 0x83
  | sendAck => 0x84
  | mailbox => 0x85
  | counts => 0x86
  | error => 0xFF

/-- The opcode of an octet, if one is assigned. -/
def ofCode? (b : UInt8) : Option Opcode := all.find? (·.code == b)

def name : Opcode → String
  | publish => "Publish"
  | fetch => "Fetch"
  | send => "Send"
  | drain => "Drain"
  | count => "Count"
  | publishAck => "PublishAck"
  | coinGranted => "CoinGranted"
  | notFound => "NotFound"
  | sendAck => "SendAck"
  | mailbox => "Mailbox"
  | counts => "Counts"
  | error => "Error"

/-- Whether a client sends it to a broker. -/
def isRequest (o : Opcode) : Bool := o.code < 0x80

theorem ofCode?_code (o : Opcode) : ofCode? o.code = some o := by
  cases o <;> rfl

theorem code_of_ofCode? {b : UInt8} {o : Opcode} (h : ofCode? b = some o) : o.code = b := by
  simpa using List.find?_some h

end Opcode

end CoinRelay.Wire
