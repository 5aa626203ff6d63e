import CoinRelay.Tier

/-!
# Faults of keys and secrets

Why a key pair cannot be minted or a secret sealed or opened, with the one text of each cause.
-/

namespace CoinRelay

/-- Why an operation on keys or secrets fails. -/
inductive CryptoError
  | initFailed (reason : String)
  | keygenFailed (tier : Tier) (reason : String)
  | rng (reason : String)
  | sealFailed
  | openFailed
  deriving DecidableEq, Repr

/-- The text of a cause. -/
def CryptoError.message : CryptoError → String
  | initFailed reason => s!"crypto initialization failed: {reason}"
  | keygenFailed tier reason => s!"keygen failed for {tier.name}: {reason}"
  | rng reason => s!"random source failed: {reason}"
  | sealFailed => "seal failed"
  | openFailed => "sealed secret failed authentication"

end CoinRelay
