import CoinRelay.Octets
import Mathlib.Algebra.Order.Ring.Nat
import Mathlib.Data.List.Induction

/-!
# Octets written and read

What `Octets.bigEndian`, `Octets.split?` and `Octets.ofText` write is read back by their counterparts.

- numbers: `Octets.number_bigEndian`, `Octets.bigEndian_number`, and the bound `Octets.number_lt` on what octets can write;
- parts: `Octets.split?_append`;
- texts: `Octets.text?_eq_some_iff`, reading and writing a text are inverse.
-/

namespace CoinRelay.Octets

/-! ## Numbers -/

theorem number_append_singleton (o : Octets) (b : UInt8) : number (o ++ [b]) = number o * 256 + b.toNat := by
  simp [number]

/-- The octets of a number in a width that holds it write that number. -/
theorem number_bigEndian {width n : Nat} (h : n < 256 ^ width) : number (bigEndian width n) = n := by
  induction width generalizing n with
  | zero =>
    rw [Nat.pow_zero, Nat.lt_one_iff] at h
    subst h
    rfl
  | succ width ih =>
    rw [bigEndian, number_append_singleton, ih (by rw [Nat.pow_succ] at h; omega), UInt8.toNat_ofNat']
    omega

/-- Octets are those of the number they write, in their own width. -/
theorem bigEndian_number (o : Octets) : bigEndian o.length (number o) = o := by
  induction o using List.reverseRecOn with
  | nil => rfl
  | append_singleton o b ih =>
    have hb := b.toNat_lt
    have hlow : UInt8.ofNat (number o * 256 + b.toNat) = b := by
      apply UInt8.toNat.inj
      rw [UInt8.toNat_ofNat']
      omega
    rw [number_append_singleton, List.length_append, List.length_singleton, bigEndian, hlow,
      show (number o * 256 + b.toNat) / 256 = number o by omega, ih]

/-- Octets write no number beyond their width. -/
theorem number_lt (o : Octets) : number o < 256 ^ o.length := by
  induction o using List.reverseRecOn with
  | nil => simp [number]
  | append_singleton o b ih =>
    rw [number_append_singleton, List.length_append, List.length_singleton, Nat.pow_succ]
    have := b.toNat_lt
    omega

/-- Leading zeros do not count. -/
theorem number_dropWhile_zero (o : Octets) : number (o.dropWhile (· == 0)) = number o := by
  induction o with
  | nil => rfl
  | cons b o ih =>
    by_cases hb : b = 0
    · subst hb
      exact ih
    · rw [List.dropWhile_cons_of_neg (by simpa using hb)]

/-! ## Parts -/

theorem split?_append {n : Nat} {front : Octets} (h : front.length = n) (rest : Octets) :
    (front ++ rest).split? n = some (front, rest) :=
  split?_eq_some_iff.2 ⟨rfl, h⟩

/-- There are no `n` octets to split off exactly where there are fewer. -/
theorem split?_eq_none_iff {n : Nat} {o : Octets} : o.split? n = none ↔ o.length < n := by
  simp only [split?, List.length_take]
  split
  · next h =>
    constructor
    · intro hnone
      cases hnone
    · omega
  · next h =>
    constructor
    · intro _
      omega
    · intro _
      rfl

/-! ## Texts -/

/-- Octets spell a text exactly when they are its UTF-8 form. -/
theorem text?_eq_some_iff {o : Octets} {s : String} : o.text? = some s ↔ o = ofText s := by
  unfold text? String.fromUTF8? ofText
  constructor
  · intro h
    split at h
    · cases h; rfl
    · cases h
  · rintro rfl
    rw [Array.toArray_toList]
    exact dif_pos s.isValidUTF8

theorem text?_ofText (s : String) : (ofText s).text? = some s := text?_eq_some_iff.2 rfl

theorem ofText_inj {s t : String} (h : ofText s = ofText t) : s = t := by
  have := text?_ofText s
  rw [h, text?_ofText] at this
  exact (Option.some.inj this).symm

end CoinRelay.Octets
