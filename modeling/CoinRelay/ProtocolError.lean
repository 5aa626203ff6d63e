import CoinRelay.Octets

/-!
# Faults of records and frames

Why a coin, a packet, a frame or a body is refused, with the one text of each cause.

- `RecordFault`: a field of a coin or packet that does not hold what it must;
- `ProtocolError`: all the causes, and `ProtocolError.message`, their text.
-/

namespace CoinRelay

/-- A field of a coin or a packet that is not as it must be. -/
inductive RecordFault
  | emptyOwner
  | publicKeyNotHex
  | missingSignature
  | emptyRecipient
  | ciphertextNotHex
  | nonceNotHex
  deriving DecidableEq, Repr

namespace RecordFault

/-- The name of the field. -/
def field : RecordFault → String
  | emptyOwner => "user"
  | publicKeyNotHex => "pk"
  | missingSignature => "sig"
  | emptyRecipient => "to"
  | ciphertextNotHex => "ct"
  | nonceNotHex => "iv"

/-- What is wrong with the field. -/
def reason : RecordFault → String
  | emptyOwner => "empty owner"
  | publicKeyNotHex => "public key must be non-empty lowercase hex"
  | missingSignature => "missing signature"
  | emptyRecipient => "empty recipient"
  | ciphertextNotHex => "ciphertext must be lowercase hex"
  | nonceNotHex => "nonce must be lowercase hex"

end RecordFault

/-- Why a record, a frame or a body is refused. -/
inductive ProtocolError
  | frameTooShort (expected actual : Nat)
  | invalidMagic
  | unsupportedVersion (version : UInt8)
  | unknownOpcode (opcode : UInt8)
  | payloadTooLarge (size max : Nat)
  | frameTruncated (expected actual : Nat)
  | invalidTier (value : UInt8)
  | invalidRecord (fault : RecordFault)
  | encodeFailed (reason : String)
  | decodeFailed (reason : String)
  deriving DecidableEq, Repr

/-- An octet in hexadecimal, as opcodes are written. -/
def octetText (b : UInt8) : String :=
  String.ofList ['0', 'x', Nat.digitChar (b.toNat / 16), Nat.digitChar (b.toNat % 16)]

/-- The text of a cause. -/
def ProtocolError.message : ProtocolError → String
  | frameTooShort expected actual => s!"frame too short: expected {expected} bytes, got {actual}"
  | invalidMagic => "invalid magic number"
  | unsupportedVersion version => s!"unsupported protocol version: {version.toNat}"
  | unknownOpcode opcode => s!"unknown opcode: {octetText opcode}"
  | payloadTooLarge size max => s!"payload too large: {size} bytes (max {max})"
  | frameTruncated expected actual => s!"frame truncated: expected {expected} payload bytes, got {actual}"
  | invalidTier value => s!"invalid tier: {value.toNat}"
  | invalidRecord fault => s!"invalid {fault.field}: {fault.reason}"
  | encodeFailed reason => s!"CBOR encode error: {reason}"
  | decodeFailed reason => s!"CBOR decode error: {reason}"

end CoinRelay
