import CoinRelay.Crypto.Sha256
import CoinRelay.Text.Hex
import CoinRelay.Tier

/-!
# The binding tag

The signature field of a coin: a hash that ties the public key to the tier it was minted for.

- `Binding.material`: what is hashed, a label, the tier and the octets of the key;
- `Binding.tag`: the hash as lowercase text.
-/

namespace CoinRelay.Crypto.Binding

/-- Sets these hashes apart from any others. -/
def label : String := "aqm/coin-binding/v1"

/-- The octets of a key: those its text writes in hexadecimal, or else the text's own. -/
def keyOctets (publicKey : String) : Octets :=
  (Hex.decode? publicKey).getD (Octets.ofText publicKey)

/-- What the tag of a key and a tier is the hash of. -/
def material (publicKey : String) (tier : Tier) : Octets :=
  Octets.ofText label ++ tier.code :: keyOctets publicKey

/-- The tag that binds a public key to a tier. -/
def tag (publicKey : String) (tier : Tier) : String :=
  Hex.encode (sha256 (material publicKey tier))

end CoinRelay.Crypto.Binding
