import CoinRelay.ProtocolError
import CoinRelay.Wire.Limits
import CoinRelay.Wire.Opcode

/-!
# Frames

A frame is a header of twelve octets and the body whose length it announces: four octets of magic, one of version, one
of opcode, two that are reserved, and four of length, highest first.

- `Header.parse`: the header at the front of octets, or the first thing wrong with it;
- `Frame.encode`: the octets of a frame, unless its body is too long;
- `Frame.decode`: the frame at the front of octets; those after it are ignored.
-/

namespace CoinRelay.Wire

/-! ## Headers -/

/-- The parts of a header that vary. -/
structure Header where
  opcode : UInt8
  reserved : UInt8 × UInt8 := (0, 0)
  payloadSize : UInt32 := 0
  deriving DecidableEq, Repr

namespace Header

/-- The number that starts every frame: the ASCII letters `AQMB`. -/
def magic : UInt32 := 0x41514D42

/-- The version of the protocol. -/
def version : UInt8 := 1

/-- The twelve octets of a header. -/
def toOctets (h : Header) : Octets :=
  Octets.bigEndian 4 magic.toNat ++ [version, h.opcode, h.reserved.1, h.reserved.2] ++
    Octets.bigEndian 4 h.payloadSize.toNat

/-- Reads the header at the front of octets. -/
def parse (o : Octets) : Except ProtocolError Header :=
  match o with
  | m₀ :: m₁ :: m₂ :: m₃ :: v :: opcode :: r₀ :: r₁ :: s₀ :: s₁ :: s₂ :: s₃ :: _ =>
    let size := Octets.number [s₀, s₁, s₂, s₃]
    if Octets.number [m₀, m₁, m₂, m₃] ≠ magic.toNat then .error .invalidMagic
    else if v ≠ version then .error (.unsupportedVersion v)
    else if maxPayload < size then .error (.payloadTooLarge size maxPayload)
    else .ok { opcode, reserved := (r₀, r₁), payloadSize := UInt32.ofNat size }
  | _ => .error (.frameTooShort headerSize o.length)

end Header

/-! ## Frames -/

/-- An opcode, the reserved octets, and a body. -/
structure Frame where
  opcode : UInt8
  reserved : UInt8 × UInt8 := (0, 0)
  payload : Octets
  deriving DecidableEq, Repr

namespace Frame

/-- The largest number of the size field. -/
def maxSizeField : Nat := UInt32.size - 1

/-- The header of a frame. A body too long for the size field fills it up. -/
def header (f : Frame) : Header where
  opcode := f.opcode
  reserved := f.reserved
  payloadSize := UInt32.ofNat (min f.payload.length maxSizeField)

/-- The number of octets of a frame. -/
def size (f : Frame) : Nat := headerSize + f.payload.length

/-- The octets of a frame. -/
def encode (f : Frame) : Except ProtocolError Octets :=
  if maxPayload < f.payload.length then .error (.payloadTooLarge f.payload.length maxPayload)
  else .ok (f.header.toOctets ++ f.payload)

/-- The frame at the front of octets. -/
def decode (o : Octets) : Except ProtocolError Frame :=
  match Header.parse o with
  | .error e => .error e
  | .ok h =>
    match Octets.split? h.payloadSize.toNat (o.drop headerSize) with
    | some (payload, _) => .ok { opcode := h.opcode, reserved := h.reserved, payload }
    | none => .error (.frameTruncated h.payloadSize.toNat (o.length - headerSize))

end Frame

end CoinRelay.Wire
