import CoinRelay.ProtocolError

/-!
# The texts of faults are short

A fault names a number or two, so its text is short as long as these are 64-bit numbers (`ProtocolError.Moderate`) and
the reasons it repeats are short (`ProtocolError.utf8ByteSize_message_le`).
-/

namespace CoinRelay

/-! ## Texts -/

theorem utf8ByteSize_le (s : String) : s.utf8ByteSize ≤ 4 * s.length := by
  rw [← String.ofList_toList (s := s)]
  generalize s.toList = cs
  induction cs with
  | nil => exact Nat.le_refl _
  | cons c cs ih =>
    have := c.utf8Size_le_four
    rw [String.ofList_cons, String.utf8ByteSize_append, String.utf8ByteSize_singleton, String.length_append,
      String.length_singleton]
    omega

theorem append_le {s t : String} {m n : Nat} (hs : s.utf8ByteSize ≤ m) (ht : t.utf8ByteSize ≤ n) :
    (s ++ t).utf8ByteSize ≤ m + n := by
  rw [String.utf8ByteSize_append]
  exact Nat.add_le_add hs ht

theorem utf8ByteSize_octetText (b : UInt8) : (octetText b).utf8ByteSize ≤ 16 := by
  have := utf8ByteSize_le (octetText b)
  have hlen : (octetText b).length = 4 := String.length_ofList
  omega

/-- The decimal text of a 64-bit number. -/
theorem utf8ByteSize_decimal_le {n : Nat} (h : n < UInt64.size) : (toString n).utf8ByteSize ≤ 80 := by
  have hlen : (Nat.repr n).length ≤ 20 := (Nat.length_repr_le_iff (by decide)).2 (Nat.lt_trans h (by decide))
  have := utf8ByteSize_le (Nat.repr n)
  rw [Nat.toString_eq_repr]
  omega

/-! ## Faults -/

namespace ProtocolError

/-- Faults with 64-bit numbers and short reasons. -/
def Moderate : ProtocolError → Prop
  | frameTooShort expected actual => expected < UInt64.size ∧ actual < UInt64.size
  | payloadTooLarge size max => size < UInt64.size ∧ max < UInt64.size
  | frameTruncated expected actual => expected < UInt64.size ∧ actual < UInt64.size
  | encodeFailed reason => reason.utf8ByteSize ≤ 128
  | decodeFailed reason => reason.utf8ByteSize ≤ 128
  | _ => True

/-- **The text of a moderate fault is short.** -/
theorem utf8ByteSize_message_le {e : ProtocolError} (h : e.Moderate) : e.message.utf8ByteSize ≤ 256 := by
  have hb (b : UInt8) := utf8ByteSize_decimal_le (Nat.lt_trans b.toNat_lt (show 2 ^ 8 < UInt64.size by decide))
  cases e with
  | frameTooShort _ _ | frameTruncated _ _ =>
    exact Nat.le_trans (append_le (append_le (append_le (m := 32) (by decide) (utf8ByteSize_decimal_le h.1))
      (n := 32) (by decide)) (utf8ByteSize_decimal_le h.2)) (by decide)
  | payloadTooLarge _ _ =>
    exact Nat.le_trans (append_le (append_le (append_le (append_le (m := 32) (by decide)
      (utf8ByteSize_decimal_le h.1)) (n := 32) (by decide)) (utf8ByteSize_decimal_le h.2)) (n := 32) (by decide))
      (by decide)
  | invalidMagic => decide
  | unsupportedVersion version => exact Nat.le_trans (append_le (m := 32) (by decide) (hb version)) (by decide)
  | invalidTier value => exact Nat.le_trans (append_le (m := 32) (by decide) (hb value)) (by decide)
  | unknownOpcode opcode =>
    exact Nat.le_trans (append_le (m := 32) (by decide) (utf8ByteSize_octetText opcode)) (by decide)
  | invalidRecord fault => cases fault <;> decide
  | encodeFailed _ | decodeFailed _ => exact Nat.le_trans (append_le (m := 32) (by decide) h) (by decide)

end ProtocolError

end CoinRelay
