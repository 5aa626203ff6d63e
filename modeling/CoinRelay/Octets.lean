/-!
# Octet strings

Octets as lists, the numbers they write highest octet first, and the text they spell.

- `Octets.bigEndian` and `Octets.number`: a number in a given width, and back;
- `Octets.ofText` and `Octets.text?`: the UTF-8 form of a text, and back when the octets are UTF-8;
- `Octets.split?`: a given count of octets off the front (`Octets.length_of_split?`).
-/

namespace CoinRelay

/-- A string of octets. -/
abbrev Octets := List UInt8

namespace Octets

/-! ## Numbers -/

/-- The lowest `width` octets of a number, highest first. -/
def bigEndian : (width : Nat) → Nat → Octets
  | 0, _ => []
  | width + 1, n => bigEndian width (n / 256) ++ [UInt8.ofNat n]

/-- The number that octets write, highest first. -/
def number (o : Octets) : Nat :=
  o.foldl (fun n b => n * 256 + b.toNat) 0

/-- The number that octets write, lowest first. -/
def littleEndian (o : Octets) : Nat :=
  o.foldr (fun b n => n * 256 + b.toNat) 0

theorem length_bigEndian (width n : Nat) : (bigEndian width n).length = width := by
  induction width generalizing n with
  | zero => rfl
  | succ width ih => simp [bigEndian, ih]

/-! ## Text -/

/-- The UTF-8 form of a text. -/
def ofText (s : String) : Octets :=
  s.toByteArray.data.toList

/-- The text whose UTF-8 form the octets are, if they are one. -/
def text? (o : Octets) : Option String :=
  String.fromUTF8? ⟨o.toArray⟩

theorem length_ofText (s : String) : (ofText s).length = s.utf8ByteSize := by
  rw [ofText, Array.length_toList]
  rfl

/-! ## Parts -/

/-- The first `n` octets and those after them, if there are `n`. -/
def split? (n : Nat) (o : Octets) : Option (Octets × Octets) :=
  let front := o.take n
  if front.length = n then some (front, o.drop n) else none

theorem split?_eq_some_iff {n : Nat} {o front rest : Octets} :
    o.split? n = some (front, rest) ↔ o = front ++ rest ∧ front.length = n := by
  simp only [split?]
  constructor
  · intro h
    split at h
    · next hn =>
      simp only [Option.some.injEq, Prod.mk.injEq] at h
      obtain ⟨rfl, rfl⟩ := h
      exact ⟨(List.take_append_drop n o).symm, hn⟩
    · simp at h
  · rintro ⟨rfl, rfl⟩
    simp

/-- Splitting off the front never leaves more than there was. -/
theorem length_of_split? {n : Nat} {o front rest : Octets} (h : o.split? n = some (front, rest)) :
    rest.length ≤ o.length := by
  obtain ⟨rfl, _⟩ := split?_eq_some_iff.1 h
  simp

end Octets

end CoinRelay
