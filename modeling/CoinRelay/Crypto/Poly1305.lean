import CoinRelay.Octets

/-!
# The Poly1305 authenticator

A one-time authenticator: a polynomial over blocks of sixteen octets, modulo `2 ^ 130 - 5`.

- `poly1305`: the sixteen octets of the tag (`length_poly1305`).
-/

namespace CoinRelay.Crypto

namespace Poly1305

/-- The modulus. -/
def modulus : Nat := (1 <<< 130) - 5

/-- Clears the bits that a multiplier may not have. -/
def clamp (r : Nat) : Nat := r &&& 0x0ffffffc0ffffffc0ffffffc0fffffff

/-- The blocks of sixteen octets, the last maybe shorter. -/
def blocks (o : Octets) : List Octets :=
  match o with
  | [] => []
  | b :: rest => (b :: rest.take 15) :: blocks (rest.drop 15)
termination_by o.length
decreasing_by simp only [List.length_drop, List.length_cons]; omega

/-- The number of a block: its octets, lowest first, and a one behind them. -/
def blockNumber (b : Octets) : Nat := Octets.littleEndian (b ++ [1])

/-- The value of the polynomial. -/
def evaluate (r : Nat) (message : Octets) : Nat :=
  (blocks message).foldl (fun acc b => (acc + blockNumber b) * r % modulus) 0

end Poly1305

/-- The tag of a message under a one-time key of 32 octets. -/
def poly1305 (key message : Octets) : Octets :=
  let r := Poly1305.clamp (Octets.littleEndian (key.take 16))
  let s := Octets.littleEndian (key.drop 16)
  (Octets.bigEndian 16 (Poly1305.evaluate r message + s)).reverse

theorem length_poly1305 (key message : Octets) : (poly1305 key message).length = 16 := by
  simp [poly1305, Octets.length_bigEndian]

end CoinRelay.Crypto
