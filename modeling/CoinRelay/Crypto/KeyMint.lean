import CoinRelay.Crypto.ChaCha20
import CoinRelay.CryptoError
import CoinRelay.Supply
import CoinRelay.Text.Hex
import CoinRelay.Text.Quoted

/-!
# Minting key pairs

A mint gives one key pair after the other. Where the pairs come from is left open: a source is an endless supply of
attempts, each of which may fail or give halves of the wrong size, and the mint lets through only pairs of the sizes
that the tier's algorithm has.

- `KeyMint.generate`: the next pair for a tier;
- `KeyMint.start`: a mint whose source passed its test;
- `KeyMint.stretched`: a source that stretches a seed.
-/

namespace CoinRelay.Crypto

/-- A public key in lowercase hexadecimal and its secret half. -/
structure KeyPair where
  tier : Tier
  publicKey : String
  secret : Octets
  deriving DecidableEq, Repr

/-- What a key pair tells of itself: all but its secret. -/
def KeyPair.describe (k : KeyPair) : String :=
  "KeyPair \x7b tier: " ++ k.tier.title ++ ", public_hex: " ++ Quoted.encode k.publicKey ++ ", .. \x7d"

/-- The secret half in lowercase hexadecimal. -/
def KeyPair.secretText (k : KeyPair) : String := Hex.encode k.secret

/-- The octets of the public and the secret half of a tier's keys: Kyber-768 for the upper tiers, X25519 below. -/
def keySizes : Tier → Nat × Nat
  | .gold | .silver => (1184, 2400)
  | .bronze => (32, 32)

/-- One attempt to generate the halves of a pair, or why it failed. -/
abbrev KeyAttempt := Tier → Except String (Octets × Octets)

/-- Where key pairs come from. -/
structure KeyMint where
  attempts : Supply KeyAttempt

namespace KeyMint

/-- The pair that an attempt gives, if its halves have the sizes of the tier. -/
def pairOf (tier : Tier) (attempt : KeyAttempt) : Except CryptoError KeyPair :=
  match attempt tier with
  | .error reason => .error (.keygenFailed tier reason)
  | .ok (publicKey, secret) =>
    if (publicKey.length, secret.length) = keySizes tier then
      .ok { tier, publicKey := Hex.encode publicKey, secret }
    else
      .error (.keygenFailed tier s!"key size mismatch: pk {publicKey.length} bytes, sk {secret.length} bytes")

/-- The next pair for a tier. -/
def generate (m : KeyMint) (tier : Tier) : Except CryptoError KeyPair × KeyMint :=
  let (attempt, attempts) := m.attempts.next
  (pairOf tier attempt, { attempts })

/-- A mint on a source that gave a pair of each algorithm. -/
def start (attempts : Supply KeyAttempt) : Except CryptoError KeyMint :=
  let (gold, m) := generate { attempts } .gold
  let (bronze, m) := m.generate .bronze
  match gold, bronze with
  | .ok _, .ok _ => .ok m
  | .error e, _ | _, .error e => .error (.initFailed s!"self-test keygen: {e.message}")

/-- Halves of a tier's sizes, stretched from a seed and the number of the attempt. -/
def stretched (seed : Octets) : Supply KeyAttempt where
  item i tier :=
    let (publicSize, secretSize) := keySizes tier
    let octets := ChaCha20.stream seed (Octets.bigEndian 8 i) 0 (publicSize + secretSize)
    .ok (octets.take publicSize, (octets.drop publicSize).take secretSize)

end KeyMint

end CoinRelay.Crypto
