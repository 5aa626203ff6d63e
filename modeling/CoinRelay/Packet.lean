import CoinRelay.KeyId
import CoinRelay.Text.Hex
import CoinRelay.Wire.Limits
import CoinRelay.Wire.Record

/-!
# Packets

A message on its way to its recipient's mailbox, under the identifier of the one-time key it was sent with.

- `Packet.size`: the length of its map on the wire;
- `Packet.check`: the first reason why no mailbox takes it.
-/

namespace CoinRelay

/-- A message for a recipient, sent with one of the recipient's coins. -/
structure Packet where
  recipient : String
  keyId : KeyId
  tier : Tier
  ciphertext : String
  payload : String
  nonce : String
  deriving DecidableEq, Repr

namespace Packet

open Wire

instance : Record Packet where
  fields := [⟨"to", .text⟩, ⟨"kid", .number 64⟩, ⟨"coin", .tier⟩, ⟨"ct", .text⟩, ⟨"payload", .text⟩, ⟨"iv", .text⟩]
  toScalars p :=
    [.text p.recipient, .number p.keyId.word.toNat, .tier p.tier, .text p.ciphertext, .text p.payload, .text p.nonce]
  ofScalars?
    | [.text recipient, .number keyId, .tier tier, .text ciphertext, .text payload, .text nonce] =>
      some { recipient, keyId := ⟨UInt64.ofNat keyId⟩, tier, ciphertext, payload, nonce }
    | _ => none

/-- The number of octets of a packet's map. -/
def size (p : Packet) : Nat := (Record.write p).length

/-- The first field of a packet that is not as it must be. -/
def fault? (p : Packet) : Option RecordFault :=
  if p.recipient.isEmpty then some .emptyRecipient
  else if !Hex.isLower p.ciphertext then some .ciphertextNotHex
  else if !Hex.isLower p.nonce then some .nonceNotHex
  else none

/-- Refuses a packet with a faulty field, and one that is too large for a mailbox reply. -/
def check (p : Packet) : Except ProtocolError Unit :=
  match p.fault? with
  | some fault => .error (.invalidRecord fault)
  | none => if mailboxBudget < p.size then .error (.payloadTooLarge p.size mailboxBudget) else .ok ()

end Packet

end CoinRelay
