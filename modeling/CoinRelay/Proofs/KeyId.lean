import CoinRelay.KeyId
import Mathlib.Data.Nat.Bitwise
import Mathlib.Data.Prod.Lex

/-!
# The parts of a key identifier

- `KeyId.toNat_derive`: an identifier as a number, its three parts side by side;
- `KeyId.seed_derive`: the seed is read back, as far as an identifier holds it;
- `KeyId.derive_inj`: under one seed, tier and index tell identifiers apart;
- `KeyId.derive_lt_iff`: identifiers are in the order of their parts, the seed first;
- `KeyId.derive_mod`: of a seed that is too large, the low bits are held (`KeyId.packs_derive`).
-/

namespace CoinRelay.KeyId

/-- An identifier holds the low 40 bits of a seed. -/
theorem toNat_and_maxSeed (s : UInt64) : (s &&& maxSeed).toNat = s.toNat % 2 ^ 40 := by
  rw [UInt64.toNat_and]
  exact Nat.and_two_pow_sub_one_eq_mod s.toNat 40

theorem code_lt (t : Tier) : t.code.toNat < 2 ^ 8 := UInt8.toNat_lt _

/-- **An identifier as a number**: the low 40 bits of the seed, the tier and the index, side by side. -/
theorem toNat_derive (s : UInt64) (t : Tier) (i : UInt16) :
    (derive s t i).word.toNat = (s.toNat % 2 ^ 40) * 2 ^ 24 + t.code.toNat * 2 ^ 16 + i.toNat := by
  have hs : s.toNat % 2 ^ 40 < 2 ^ 40 := Nat.mod_lt _ (by decide)
  have ht : t.code.toNat < 2 ^ 8 := code_lt t
  have hi : i.toNat < 2 ^ 16 := i.toNat_lt
  have hhigh : ((s &&& maxSeed) <<< 24).toNat = (s.toNat % 2 ^ 40) <<< 24 := by
    rw [UInt64.toNat_shiftLeft, toNat_and_maxSeed, Nat.shiftLeft_eq, Nat.shiftLeft_eq]
    exact Nat.mod_eq_of_lt (by show _ * 2 ^ 24 < 2 ^ 64; omega)
  have hmid : (t.code.toUInt64 <<< 16).toNat = t.code.toNat <<< 16 := by
    rw [UInt64.toNat_shiftLeft, UInt8.toNat_toUInt64, Nat.shiftLeft_eq, Nat.shiftLeft_eq]
    exact Nat.mod_eq_of_lt (by show _ * 2 ^ 16 < 2 ^ 64; omega)
  have hlow : t.code.toNat <<< 16 ||| i.toNat = t.code.toNat * 2 ^ 16 + i.toNat := by
    rw [← Nat.shiftLeft_add_eq_or_of_lt hi, Nat.shiftLeft_eq]
  calc (derive s t i).word.toNat
      = (s.toNat % 2 ^ 40) <<< 24 ||| (t.code.toNat <<< 16 ||| i.toNat) := by
        rw [derive, UInt64.toNat_or, UInt64.toNat_or, hhigh, hmid, UInt16.toNat_toUInt64, Nat.or_assoc]
    _ = (s.toNat % 2 ^ 40) <<< 24 ||| (t.code.toNat * 2 ^ 16 + i.toNat) := by rw [hlow]
    _ = (s.toNat % 2 ^ 40) * 2 ^ 24 + (t.code.toNat * 2 ^ 16 + i.toNat) := by
        rw [← Nat.shiftLeft_add_eq_or_of_lt (by omega), Nat.shiftLeft_eq]
    _ = _ := (Nat.add_assoc _ _ _).symm

example : (derive 1 .silver 2).word = 0x1010002 := by decide

/-- The seed is read back without the bits that an identifier does not hold. -/
theorem toNat_seed_derive (s : UInt64) (t : Tier) (i : UInt16) :
    (derive s t i).seed.toNat = s.toNat % 2 ^ 40 := by
  have ht := code_lt t
  have hi : i.toNat < 2 ^ 16 := i.toNat_lt
  rw [seed, UInt64.toNat_shiftRight, toNat_derive, Nat.shiftRight_eq_div_pow]
  show _ / 2 ^ 24 = _
  omega

/-- A seed that fits is a number of 40 bits. -/
theorem toNat_lt_of_le_maxSeed {s : UInt64} (hs : s ≤ maxSeed) : s.toNat < 2 ^ 40 :=
  Nat.lt_succ_of_le (UInt64.le_iff_toNat_le.1 hs)

/-- **A seed that fits** is read back as it was. -/
theorem seed_derive {s : UInt64} (hs : s ≤ maxSeed) (t : Tier) (i : UInt16) : (derive s t i).seed = s := by
  rw [← UInt64.toNat_inj, toNat_seed_derive, Nat.mod_eq_of_lt (toNat_lt_of_le_maxSeed hs)]

theorem code_inj {t u : Tier} (h : t.code = u.code) : t = u := by
  cases t <;> cases u <;> first | rfl | cases h

/-- **Under one seed**, two identifiers are the same only for the same tier and index. -/
theorem derive_inj {s : UInt64} {t u : Tier} {i j : UInt16} (h : derive s t i = derive s u j) : t = u ∧ i = j := by
  have hword := congrArg (·.word.toNat) h
  have ht := code_lt t
  have hu := code_lt u
  have hi : i.toNat < 2 ^ 16 := i.toNat_lt
  have hj : j.toNat < 2 ^ 16 := j.toNat_lt
  simp only [toNat_derive] at hword
  exact ⟨code_inj (UInt8.toNat_inj.1 (by omega)), UInt16.toNat_inj.1 (by omega)⟩

theorem toNat_code (t : Tier) : t.code.toNat = t.rank := by
  cases t <;> rfl

/-- An identifier with its parts: none of them is cut off and none runs into another. -/
structure Packs (s : UInt64) (t : Tier) (i : UInt16) (k : KeyId) : Prop where
  /-- The parts stand side by side. -/
  number : k.word.toNat = s.toNat * 2 ^ 24 + t.code.toNat * 2 ^ 16 + i.toNat
  seed : k.seed = s
  tier : (k.word >>> 16).toUInt8 = t.code
  index : k.word.toUInt16 = i

/-- **An identifier holds its parts**, as far as the seed fits. -/
theorem packs_derive {s : UInt64} (hs : s ≤ maxSeed) (t : Tier) (i : UInt16) : Packs s t i (derive s t i) := by
  have ht := code_lt t
  have hi : i.toNat < 2 ^ 16 := i.toNat_lt
  have hnumber : (derive s t i).word.toNat = s.toNat * 2 ^ 24 + t.code.toNat * 2 ^ 16 + i.toNat := by
    rw [toNat_derive, Nat.mod_eq_of_lt (toNat_lt_of_le_maxSeed hs)]
  refine ⟨hnumber, seed_derive hs t i, ?_, ?_⟩
  · rw [← UInt8.toNat_inj, UInt64.toNat_toUInt8, UInt64.toNat_shiftRight, hnumber, Nat.shiftRight_eq_div_pow]
    show _ / 2 ^ 16 % 2 ^ 8 = _
    omega
  · rw [← UInt16.toNat_inj, UInt64.toNat_toUInt16, hnumber]
    omega

/-- **Identifiers are in the order of their parts**: the seed first, then the tier, then the index. -/
theorem derive_lt_iff {s s' : UInt64} (hs : s ≤ maxSeed) (hs' : s' ≤ maxSeed) {t t' : Tier} {i i' : UInt16} :
    (derive s t i).word < (derive s' t' i').word ↔
      toLex (s, toLex (t.rank, i)) < toLex (s', toLex (t'.rank, i')) := by
  have ht := code_lt t
  have ht' := code_lt t'
  have hi : i.toNat < 2 ^ 16 := i.toNat_lt
  have hi' : i'.toNat < 2 ^ 16 := i'.toNat_lt
  simp only [Prod.Lex.toLex_lt_toLex, UInt64.lt_iff_toNat_lt, UInt16.lt_iff_toNat_lt, ← UInt64.toNat_inj, ← toNat_code,
    (packs_derive hs t i).number, (packs_derive hs' t' i').number]
  omega

/-- **A seed that is too large** stands for its low 40 bits. -/
theorem derive_mod (s : UInt64) (t : Tier) (i : UInt16) :
    derive s t i = derive (UInt64.ofNat (s.toNat % 2 ^ 40)) t i := by
  have hlow : (UInt64.ofNat (s.toNat % 2 ^ 40)).toNat = s.toNat % 2 ^ 40 := by
    rw [UInt64.toNat_ofNat']
    omega
  have hword : (derive s t i).word = (derive (UInt64.ofNat (s.toNat % 2 ^ 40)) t i).word := by
    rw [← UInt64.toNat_inj, toNat_derive, toNat_derive, hlow, Nat.mod_mod]
  exact congrArg KeyId.mk hword

end CoinRelay.KeyId
