import CoinRelay.KeyId
import CoinRelay.Tier

/-!
# Priorities and quantities

How close a contact is follows from how many messages go to it, and how many coins of each tier are minted or fetched
follows from a table.

- `Priority.ofRate`: from strangers to besties;
- `Issuance`: the table; `Issuance.withMint` never asks for more keys than there are indexes.
-/

namespace CoinRelay

/-- How close a contact is. -/
inductive Priority
  | stranger
  | mate
  | bestie
  deriving DecidableEq, Repr, Inhabited

namespace Priority

/-- The rate from which a contact is a bestie. -/
def bestieThreshold : UInt32 := 50

/-- The rate from which a contact is a mate. -/
def mateThreshold : UInt32 := 5

/-- The priority of a contact with a number of messages per period. -/
def ofRate (rate : UInt32) : Priority :=
  if bestieThreshold ≤ rate then bestie else if mateThreshold ≤ rate then mate else stranger

def name : Priority → String
  | stranger => "STRANGER"
  | mate => "MATE"
  | bestie => "BESTIE"

end Priority

/-- How many coins of each tier to mint, and to fetch of a contact of each priority. -/
structure Issuance where
  mint : Tier.Counts := ⟨5, 5, 5⟩
  bestie : Tier.Counts := ⟨5, 4, 1⟩
  mate : Tier.Counts := ⟨0, 6, 4⟩
  stranger : Tier.Counts := ⟨0, 0, 0⟩
  deriving DecidableEq, Repr, Inhabited

namespace Issuance

/-- The coins to fetch of a contact. -/
def replenish (i : Issuance) : Priority → Tier.Counts
  | .bestie => i.bestie
  | .mate => i.mate
  | .stranger => i.stranger

/-- The number of indexes that a mint seed has for each tier. -/
def mintBound : UInt32 := UInt32.ofNat KeyId.indexesPerTier

/-- Replaces the quantities to mint, each cut to the number of indexes. -/
def withMint (counts : Tier.Counts) (i : Issuance) : Issuance :=
  { i with mint := ⟨min counts.gold mintBound, min counts.silver mintBound, min counts.bronze mintBound⟩ }

/-- Replaces the quantities to fetch of contacts of a priority. -/
def withReplenish (p : Priority) (counts : Tier.Counts) (i : Issuance) : Issuance :=
  match p with
  | .bestie => { i with bestie := counts }
  | .mate => { i with mate := counts }
  | .stranger => { i with stranger := counts }

end Issuance

end CoinRelay
