import CoinRelay.KeyId
import CoinRelay.Text.Hex
import CoinRelay.Wire.Record

/-!
# Coins

The public half of a one-time key, listed with a broker under its owner's name.

- `Coin.check`: the first field that does not hold what a listed coin must.
-/

namespace CoinRelay

/-- A one-time public key of its owner. -/
structure Coin where
  owner : String
  keyId : KeyId
  tier : Tier
  publicKey : String
  signature : String
  deriving DecidableEq, Repr

namespace Coin

open Wire

instance : Record Coin where
  fields := [⟨"user", .text⟩, ⟨"kid", .number 64⟩, ⟨"coin", .tier⟩, ⟨"pk", .text⟩, ⟨"sig", .text⟩]
  toScalars c := [.text c.owner, .number c.keyId.word.toNat, .tier c.tier, .text c.publicKey, .text c.signature]
  ofScalars?
    | [.text owner, .number keyId, .tier tier, .text publicKey, .text signature] =>
      some { owner, keyId := ⟨UInt64.ofNat keyId⟩, tier, publicKey, signature }
    | _ => none

/-- The first fault of a coin: an owner, a key in lowercase hexadecimal and a signature must all be there. -/
def fault? (c : Coin) : Option RecordFault :=
  if c.owner.isEmpty then some .emptyOwner
  else if c.publicKey.isEmpty || !Hex.isLower c.publicKey then some .publicKeyNotHex
  else if c.signature.isEmpty then some .missingSignature
  else none

/-- Refuses a coin with a fault. -/
def check (c : Coin) : Except ProtocolError Unit :=
  match c.fault? with
  | some fault => .error (.invalidRecord fault)
  | none => .ok ()

end Coin

end CoinRelay
