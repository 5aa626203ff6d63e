import CoinRelay.Octets
import CoinRelay.Tier
import Std.Data.ExtTreeMap

/-!
# Key identifiers

A 64-bit word that names a one-time key: 40 bits of time seed, 8 bits of tier and 16 bits of index, high to low, so
that the identifiers one owner mints for a tier grow with time.

- `KeyId.derive` packs the three parts; the seed loses the bits above `KeyId.maxSeed`;
- `KeyId.seed` reads the seed back.
-/

namespace CoinRelay

/-- The identifier of a one-time key. -/
structure KeyId where
  word : UInt64
  deriving DecidableEq, Repr, Inhabited

namespace KeyId

/-- The largest time seed that an identifier holds. -/
def maxSeed : UInt64 := 0xFFFFFFFFFF

/-- The number of indexes that a seed has for each tier. -/
def indexesPerTier : Nat := UInt16.size

/-- The identifier of the key of a seed, a tier and an index. -/
def derive (seed : UInt64) (tier : Tier) (index : UInt16) : KeyId :=
  ⟨((seed &&& maxSeed) <<< 24) ||| (tier.code.toUInt64 <<< 16) ||| index.toUInt64⟩

/-- The time seed of an identifier. -/
def seed (k : KeyId) : UInt64 := k.word >>> 24

/-- The eight octets of an identifier, highest first. -/
def octets (k : KeyId) : Octets := Octets.bigEndian 8 k.word.toNat

/-- The decimal text of an identifier. -/
def text (k : KeyId) : String := toString k.word.toNat

/-! ## Order -/

instance : Ord KeyId := ⟨compareOn word⟩

instance : Std.TransOrd KeyId := inferInstanceAs (Std.TransCmp (compareOn word))

instance : Std.LawfulEqOrd KeyId where
  eq_of_compare {a b} h := by
    cases a
    cases b
    exact congrArg KeyId.mk (Std.LawfulEqOrd.eq_of_compare h)

end KeyId

end CoinRelay
