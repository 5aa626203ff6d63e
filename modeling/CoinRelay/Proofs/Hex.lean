import CoinRelay.Text.Hex
import Mathlib.Data.List.Induction
import Mathlib.Data.String.Basic

/-!
# What hexadecimal text is made of

Octets are written in pairs of lowercase digits (`Hex.isLower_encode`), and some octets in some (`Hex.encode_ne_empty`).
There are no other texts of lowercase digits in pairs (`Hex.isLower_iff`), and what was written is read back
(`Hex.decode?_encode`). Reading sees no difference between a digit and its capital (`Hex.decode?_toLower`). A character
beyond ASCII has none of the octets of digits, so the octets of a text tell its digits (`Hex.isLower_eq_octets`).
-/

namespace CoinRelay.Hex

/-! ## Digits -/

theorem isLowerDigit_digitChar {n : Nat} (h : n < 16) : isLowerDigit (Nat.digitChar n) := by
  revert n
  decide

theorem value?_digitChar {n : Nat} (h : n < 16) : value? (Nat.digitChar n) = some n := by
  revert n
  decide

/-- What is true of the first 128 characters is true of all of ASCII. -/
theorem ascii_induction {P : Char → Prop} (h : ∀ n < 128, P (Char.ofNat n)) {c : Char} (hc : c.toNat < 128) : P c := by
  have hp := h c.toNat hc
  rw [Char.ofNat_toNat] at hp
  exact hp

theorem lt_of_isLowerDigit {c : Char} (h : isLowerDigit c) : c.toNat < 128 := by
  simp only [isLowerDigit, Bool.or_eq_true, Bool.and_eq_true, decide_eq_true_eq] at h
  rcases h with ⟨-, hlast⟩ | ⟨-, hlast⟩
  · have hlast : c.toNat ≤ 57 := UInt32.le_iff_toNat_le.1 hlast
    omega
  · have hlast : c.toNat ≤ 102 := UInt32.le_iff_toNat_le.1 hlast
    omega

/-- The lowercase digits are those that octets are written with. -/
theorem exists_digitChar {c : Char} (h : isLowerDigit c) : ∃ n < 16, c = Nat.digitChar n :=
  ascii_induction (P := fun c => isLowerDigit c → ∃ n < 16, c = Nat.digitChar n) (by decide) (lt_of_isLowerDigit h) h

/-- Lowercase digits are single octets in UTF-8. -/
theorem utf8Size_of_isLowerDigit {c : Char} (h : isLowerDigit c) : c.utf8Size = 1 := by
  obtain ⟨n, hn, rfl⟩ := exists_digitChar h
  revert n
  decide

/-- A capital has the value of its small letter. -/
theorem value?_toLower (c : Char) : value? c.toLower = value? c := by
  by_cases hascii : c.toNat < 128
  · exact ascii_induction (P := fun c => value? c.toLower = value? c) (by decide) hascii
  · have hsame : c.toLower = c := dif_neg fun hcapital => hascii (Nat.lt_of_le_of_lt hcapital.2 (by decide))
    rw [hsame]

/-! ## Pairs of digits -/

theorem isLowerDigit_of_mem_digits {b : UInt8} {c : Char} (h : c ∈ digits b) : isLowerDigit c := by
  have hb : b.toNat < 256 := b.toNat_lt
  rw [digits, List.mem_cons, List.mem_singleton] at h
  rcases h with rfl | rfl
  · exact isLowerDigit_digitChar (by omega)
  · exact isLowerDigit_digitChar (by omega)

theorem isLowerDigit_of_mem_flatMap {o : Octets} {c : Char} (h : c ∈ o.flatMap digits) : isLowerDigit c := by
  obtain ⟨b, -, hb⟩ := List.mem_flatMap.1 h
  exact isLowerDigit_of_mem_digits hb

/-- Two digits are those of an octet. -/
theorem digits_ofNat {x y : Nat} (hx : x < 16) (hy : y < 16) :
    digits (UInt8.ofNat (16 * x + y)) = [Nat.digitChar x, Nat.digitChar y] := by
  have hvalue : (UInt8.ofNat (16 * x + y)).toNat = 16 * x + y := by
    rw [UInt8.toNat_ofNat']
    omega
  rw [digits, hvalue, show (16 * x + y) / 16 = x by omega, show (16 * x + y) % 16 = y by omega]

/-- Digits in pairs are those of octets. -/
theorem exists_flatMap_digits {cs : List Char} (h : ∀ c ∈ cs, isLowerDigit c) (heven : cs.length % 2 = 0) :
    ∃ o : Octets, cs = o.flatMap digits := by
  induction cs using List.twoStepInduction with
  | nil => exact ⟨[], rfl⟩
  | singleton c => cases heven
  | cons_cons a b cs ih _ =>
    obtain ⟨ha, hb, hcs⟩ := (List.forall_mem_cons.1 h).imp id List.forall_mem_cons.1
    obtain ⟨x, hx, rfl⟩ := exists_digitChar ha
    obtain ⟨y, hy, rfl⟩ := exists_digitChar hb
    have heven : cs.length % 2 = 0 := by
      rw [List.length_cons, List.length_cons] at heven
      omega
    obtain ⟨o, rfl⟩ := ih hcs heven
    exact ⟨UInt8.ofNat (16 * x + y) :: o, by rw [List.flatMap_cons, digits_ofNat hx hy]; rfl⟩

/-- Lowercase digits take as many octets in UTF-8. -/
theorem utf8Len_of_isLowerDigit {cs : List Char} (h : ∀ c ∈ cs, isLowerDigit c) : String.utf8Len cs = cs.length := by
  induction cs with
  | nil => rfl
  | cons c cs ih =>
    obtain ⟨hc, hcs⟩ := List.forall_mem_cons.1 h
    rw [String.utf8Len_cons, ih hcs, utf8Size_of_isLowerDigit hc, List.length_cons]

theorem length_flatMap_digits (o : Octets) : (o.flatMap digits).length = 2 * o.length := by
  induction o with
  | nil => rfl
  | cons b o ih =>
    rw [List.flatMap_cons, List.length_append, ih, List.length_cons, digits]
    simp only [List.length_cons, List.length_nil]
    omega

/-! ## Text -/

/-- **The text of octets** is all lowercase digits, an even count of them. -/
theorem isLower_encode (o : Octets) : isLower (encode o) := by
  have hdigits : ∀ c ∈ o.flatMap digits, isLowerDigit c := fun c hc => isLowerDigit_of_mem_flatMap hc
  have heven : String.utf8Len (o.flatMap digits) % 2 = 0 := by
    rw [utf8Len_of_isLowerDigit hdigits, length_flatMap_digits]
    omega
  unfold isLower encode
  rw [String.utf8ByteSize_ofList, String.toList_ofList, heven, List.all_eq_true.2 hdigits]
  rfl

/-- **Lowercase digits in pairs** are the text of octets, and nothing else is. -/
theorem isLower_iff {s : String} : isLower s ↔ ∃ o : Octets, s = encode o := by
  constructor
  · intro h
    obtain ⟨heven, hdigits⟩ := (Bool.and_eq_true _ _).mp h
    have hdigits := List.all_eq_true.1 hdigits
    have heven : s.toList.length % 2 = 0 := by
      rw [← utf8Len_of_isLowerDigit hdigits, ← String.utf8ByteSize_ofList, String.ofList_toList]
      exact beq_iff_eq.1 heven
    obtain ⟨o, ho⟩ := exists_flatMap_digits hdigits heven
    exact ⟨o, by rw [encode, ← ho, String.ofList_toList]⟩
  · rintro ⟨o, rfl⟩
    exact isLower_encode o

/-- Some octets have some text. -/
theorem encode_ne_empty {o : Octets} (h : o ≠ []) : encode o ≠ "" := by
  cases o with
  | nil => exact absurd rfl h
  | cons b o =>
    rw [encode, ne_eq, String.ofList_eq_empty_iff]
    exact List.cons_ne_nil _ _

theorem length_encode (o : Octets) : (encode o).length = 2 * o.length := by
  rw [encode, String.length_ofList, length_flatMap_digits]

/-! ## Reading -/

/-- The pair of an octet is read as the octet. -/
theorem decodeBehind_flatMap_digits (o read : Octets) :
    decodeBehind read (o.flatMap digits) = some (read.reverse ++ o) := by
  induction o generalizing read with
  | nil => simp [decodeBehind]
  | cons b o ih =>
    have hb : b.toNat < 256 := b.toNat_lt
    have hoctet : UInt8.ofNat (16 * (b.toNat / 16) + b.toNat % 16) = b := by
      rw [Nat.div_add_mod, UInt8.ofNat_toNat]
    rw [List.flatMap_cons, digits, List.cons_append, List.cons_append, List.nil_append, decodeBehind]
    simp only [value?_digitChar (show b.toNat / 16 < 16 by omega), value?_digitChar (show b.toNat % 16 < 16 by omega),
      hoctet, ih, List.reverse_cons, List.append_assoc, List.singleton_append]

/-- **What was written** is read back. -/
theorem decode?_encode (o : Octets) : decode? (encode o) = some o := by
  rw [decode?, encode, String.toList_ofList, decodeBehind_flatMap_digits]
  rfl

/-- Different octets have different texts. -/
theorem encode_inj {o o' : Octets} (h : encode o = encode o') : o = o' := by
  have hread := decode?_encode o
  rw [h, decode?_encode] at hread
  exact (Option.some.inj hread).symm

/-- **Lowercase digits in pairs** are what is read and written again without a change. -/
theorem isLower_iff_decode? {s : String} : isLower s ↔ ∃ o, decode? s = some o ∧ encode o = s := by
  rw [isLower_iff]
  constructor
  · rintro ⟨o, rfl⟩
    exact ⟨o, decode?_encode o, rfl⟩
  · rintro ⟨o, -, hwrite⟩
    exact ⟨o, hwrite.symm⟩

theorem decodeBehind_map_toLower (read : Octets) (cs : List Char) :
    decodeBehind read (cs.map Char.toLower) = decodeBehind read cs := by
  induction cs using List.twoStepInduction generalizing read with
  | nil => rfl
  | singleton c => rfl
  | cons_cons a b cs ih _ =>
    simp only [List.map_cons, decodeBehind, value?_toLower, ih]

theorem toList_toLower (s : String) : s.toLower.toList = s.toList.map Char.toLower := String.toList_map

/-- **Capitals** are read as small letters. -/
theorem decode?_toLower (s : String) : decode? s.toLower = decode? s := by
  rw [decode?, decode?, toList_toLower, decodeBehind_map_toLower]

/-! ## Digits in UTF-8 -/

/-- The octets of the decimal digits and the letters `a` to `f`. -/
def isLowerOctet (b : UInt8) : Bool := (0x30 ≤ b && b ≤ 0x39) || (0x61 ≤ b && b ≤ 0x66)

theorem lt_of_isLowerOctet {b : UInt8} (h : isLowerOctet b) : b.toNat < 128 := by
  simp only [isLowerOctet, Bool.or_eq_true, Bool.and_eq_true, decide_eq_true_eq, UInt8.le_iff_toNat_le] at h
  have hdecimal : (0x39 : UInt8).toNat = 57 := rfl
  have hletter : (0x66 : UInt8).toNat = 102 := rfl
  omega

/-- No octet of a character beyond ASCII is in ASCII. -/
theorem le_of_mem_utf8EncodeChar {c : Char} (h : 128 ≤ c.toNat) {b : UInt8} (hb : b ∈ String.utf8EncodeChar c) :
    128 ≤ b.toNat := by
  have hc : 128 ≤ c.val.toNat := h
  delta String.utf8EncodeChar at hb
  simp only at hb
  split at hb
  · omega
  · split at hb
    · rcases List.mem_pair.1 hb with rfl | rfl <;> rw [UInt8.toNat_ofNat'] <;> omega
    · split at hb <;> simp only [List.mem_cons, List.not_mem_nil, or_false] at hb
      · rcases hb with rfl | rfl | rfl <;> rw [UInt8.toNat_ofNat'] <;> omega
      · rcases hb with rfl | rfl | rfl | rfl <;> rw [UInt8.toNat_ofNat'] <;> omega

/-- **A character is a lowercase digit** just if all its octets are. -/
theorem isLowerDigit_eq_octets (c : Char) : isLowerDigit c = (String.utf8EncodeChar c).all isLowerOctet := by
  by_cases hascii : c.toNat < 128
  · exact ascii_induction (P := fun c => isLowerDigit c = (String.utf8EncodeChar c).all isLowerOctet) (by decide) hascii
  · obtain ⟨b, octets, hoctets⟩ := List.exists_cons_of_ne_nil (String.utf8EncodeChar_ne_nil (c := c))
    have hb : 128 ≤ b.toNat := le_of_mem_utf8EncodeChar (Nat.not_lt.1 hascii) (hoctets ▸ List.mem_cons_self)
    have hoctet : isLowerOctet b = false := by
      by_contra hlower
      exact absurd (lt_of_isLowerOctet (Bool.not_eq_false _ ▸ hlower)) (Nat.not_lt.2 hb)
    have hdigit : isLowerDigit c = false := by
      by_contra hlower
      exact hascii (lt_of_isLowerDigit (Bool.not_eq_false _ ▸ hlower))
    rw [hdigit, hoctets, List.all_cons, hoctet, Bool.false_and]

/-- **Lowercase digits in pairs** can be told from the octets of a text. -/
theorem isLower_eq_octets (s : String) :
    isLower s = ((Octets.ofText s).length % 2 == 0 && (Octets.ofText s).all isLowerOctet) := by
  have htext : Octets.ofText s = s.toList.flatMap String.utf8EncodeChar := by
    rw [Octets.ofText, ← String.utf8Encode_toList, List.utf8Encode, List.data_toByteArray]
  have hdigits : s.toList.all isLowerDigit = (Octets.ofText s).all isLowerOctet := by
    rw [htext, List.all_flatMap]
    exact congrArg s.toList.all (funext isLowerDigit_eq_octets)
  rw [isLower, Octets.length_ofText, hdigits]

end CoinRelay.Hex
