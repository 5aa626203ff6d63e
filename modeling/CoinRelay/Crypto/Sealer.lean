import CoinRelay.Crypto.Aead
import CoinRelay.CryptoError
import CoinRelay.KeyId
import CoinRelay.Supply

/-!
# Sealing secrets

A sealer hides the secret half of a key and ties it to the key's identifier. Every seal takes a fresh nonce, which the
random source may fail to give.

- `Sealer.disclose_of_enclose`: what a sealer sealed opens under the same identifier.
-/

namespace CoinRelay.Crypto

/-- A secret that was sealed: the nonce, and the hidden secret with its tag. -/
structure Sealed where
  nonce : Octets
  box : Octets
  deriving DecidableEq, Repr

/-- The length of a sealed secret, tag included. -/
def Sealed.size (s : Sealed) : Nat := s.box.length

/-- What a sealed secret tells of itself: its length. -/
def Sealed.describe (s : Sealed) : String :=
  "SealedSecret \x7b len: " ++ toString s.size ++ " \x7d"

/-- A sealing key and the nonces that are left for it. -/
structure Sealer where
  key : Octets
  nonces : Supply (Except String Octets)

namespace Sealer

/-- What a sealer tells of itself: nothing. -/
def describe (_ : Sealer) : String := "VaultSealer \x7b .. \x7d"

/-- Seals a secret for an identifier. -/
def enclose (s : Sealer) (keyId : KeyId) (secret : Octets) : Except CryptoError Sealed × Sealer :=
  let (nonce, nonces) := s.nonces.next
  let s := { s with nonces }
  match nonce with
  | .error reason => (.error (.rng reason), s)
  | .ok nonce => (.ok { nonce, box := Aead.encrypt s.key nonce keyId.octets secret }, s)

/-- Opens a sealed secret for an identifier. -/
def disclose (s : Sealer) (keyId : KeyId) (sealed : Sealed) : Except CryptoError Octets :=
  match Aead.decrypt? s.key sealed.nonce keyId.octets sealed.box with
  | some secret => .ok secret
  | none => .error .openFailed

theorem enclose_key (s : Sealer) (keyId : KeyId) (secret : Octets) : (s.enclose keyId secret).2.key = s.key := by
  unfold enclose
  simp only
  split <;> rfl

/-- A sealed secret opens under the identifier it was sealed for, whatever the key was used for since. -/
theorem disclose_of_enclose {s t : Sealer} {keyId : KeyId} {secret : Octets} {sealed : Sealed}
    (h : (s.enclose keyId secret).1 = .ok sealed) (hkey : t.key = s.key) : t.disclose keyId sealed = .ok secret := by
  unfold enclose at h
  simp only at h
  split at h
  · cases h
  · cases h
    simp only [disclose, hkey, Aead.decrypt?_encrypt]

end Sealer

end CoinRelay.Crypto
