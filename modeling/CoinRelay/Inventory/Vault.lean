import CoinRelay.Crypto.Sealer
import Std.Data.ExtTreeMap

/-!
# The vault of secrets

The secret halves of one's own coins, sealed, each handed out at most once.

- `Vault.store`: seals a secret under its identifier, or keeps nothing when that fails;
- `Vault.burn`: takes a secret out for good;
- `Vault.discard`: drops a secret that was never to be used.
-/

namespace CoinRelay

open Crypto

/-- Sealed secrets by identifier, the sealer, and the number of entries handed out. -/
structure Vault where
  sealer : Sealer
  entries : Std.ExtTreeMap KeyId Sealed := ∅
  burned : Nat := 0

namespace Vault

/-- Seals a secret and keeps it, in place of any other under the identifier. -/
def store (keyId : KeyId) (secret : Octets) (v : Vault) : Except CryptoError Unit × Vault :=
  let (sealed, sealer) := v.sealer.enclose keyId secret
  match sealed with
  | .error e => (.error e, { v with sealer })
  | .ok sealed => (.ok (), { v with sealer, entries := v.entries.insert keyId sealed })

/-- Takes a secret out. An entry that does not open is gone as well. -/
def burn (keyId : KeyId) (v : Vault) : Option Octets × Vault :=
  match v.entries[keyId]? with
  | none => (none, v)
  | some sealed =>
    ((v.sealer.disclose keyId sealed).toOption, { v with entries := v.entries.erase keyId, burned := v.burned + 1 })

/-- Drops a secret unopened; says whether there was one. -/
def discard (keyId : KeyId) (v : Vault) : Bool × Vault :=
  (v.entries.contains keyId, { v with entries := v.entries.erase keyId })

/-- Whether there is a secret under an identifier. -/
def has (keyId : KeyId) (v : Vault) : Bool := v.entries.contains keyId

end Vault

end CoinRelay
