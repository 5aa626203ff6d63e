import CoinRelay.Proofs.Cbor.Outcome
import CoinRelay.Proofs.Octets

/-!
# Heads, texts and numbers are read back

What is written with a shortest head is read back, whatever octets come after it.

- `Head.outcome_read_write`: a head, and `Head.outcome_untagged_write` where tags may come before it;
- `outcome_readText_write`, `outcome_readNatural_write`, `outcome_readKey_write`; `outcome_readNatural_writeBig` for
  numbers that are written as big numbers.
-/

namespace CoinRelay.Cbor

/-! ## Heads -/

namespace Head

theorem outcome_argument_short {info : Nat} (h : info < 24) (s : Octets) :
    outcome (argument info s) = .ok (info, s) := by
  rw [argument, if_pos h]
  rfl

theorem outcome_argument_long (info : Nat) {n : Nat} (h₁ : 24 ≤ info) (h₂ : info < 28) (hn : n < 256 ^ (1 <<< (info - 24)))
    (rest : Octets) :
    outcome (argument info (Octets.bigEndian (1 <<< (info - 24)) n ++ rest)) = .ok (n, rest) := by
  have hs := Octets.split?_append (Octets.length_bigEndian (1 <<< (info - 24)) n) rest
  rw [argument, if_neg (by omega), if_pos h₂]
  split
  · next h => rw [hs] at h; cases h
  · next front q h =>
    rw [hs] at h
    cases h
    rw [Octets.number_bigEndian hn]
    rfl

/-- A head whose argument comes with or after its first octet. -/
theorem outcome_read {major info n : Nat} {head : Head} {s rest : Octets} (hm : ofArgument? major (some n) = some head)
    (hi : info < 31) (ha : outcome (argument info s) = .ok (n, rest)) :
    outcome (read (UInt8.ofNat (major * 32 + info) :: s)) = .ok (head, rest) := by
  have hm' : major ≤ 6 := by
    unfold ofArgument? at hm
    split at hm <;> first | omega | cases hm
  have hb : (UInt8.ofNat (major * 32 + info)).toNat = major * 32 + info := by
    rw [UInt8.toNat_ofNat']
    omega
  have h₁ : (major * 32 + info) / 32 = major := by omega
  have h₂ : (major * 32 + info) % 32 = info := by omega
  obtain ⟨hr, ha⟩ := exists_of_outcome ha
  simp only [read, hb, h₁, h₂, if_neg (show info ≠ 31 by omega), if_neg (show major ≠ 7 by omega), ha, hm]
  rfl

/-- A shortest head is a first octet and the octets of the argument. -/
theorem exists_write_eq (major : Nat) {n : Nat} (hn : n < UInt64.size) :
    ∃ info tail, info < 28 ∧ write major n = UInt8.ofNat (major * 32 + info) :: tail ∧
      ∀ rest, outcome (argument info (tail ++ rest)) = .ok (n, rest) := by
  simp only [write]
  split
  · next h => exact ⟨n, [], by omega, rfl, outcome_argument_short h⟩
  split
  · next h => exact ⟨24, _, by omega, rfl, outcome_argument_long 24 (by omega) (by omega) h⟩
  split
  · next h => exact ⟨25, _, by omega, rfl, outcome_argument_long 25 (by omega) (by omega) h⟩
  split
  · next h => exact ⟨26, _, by omega, rfl, outcome_argument_long 26 (by omega) (by omega) h⟩
  · exact ⟨27, _, by omega, rfl, outcome_argument_long 27 (by omega) (by omega) hn⟩

theorem length_write_pos (major n : Nat) : 0 < (write major n).length := by
  simp only [write]
  split
  · exact Nat.one_pos
  split
  · exact Nat.succ_pos _
  split
  · exact Nat.succ_pos _
  split <;> exact Nat.succ_pos _

/-- **Heads are read back.** -/
theorem outcome_read_write (major : Nat) {n : Nat} {head : Head} (hm : ofArgument? major (some n) = some head)
    (hn : n < UInt64.size) (rest : Octets) : outcome (read (write major n ++ rest)) = .ok (head, rest) := by
  obtain ⟨info, tail, hi, hw, ha⟩ := exists_write_eq major hn
  rw [hw]
  exact outcome_read hm (by omega) (ha rest)

/-- A head that is no tag is given at once. -/
theorem outcome_past_of_read (skipped : Nat → Bool) {head : Head} {s rest : Octets}
    (h : outcome (read s) = .ok (head, rest)) (ht : ∀ n, head ≠ .tag n) :
    outcome (past skipped s) = .ok (head, rest) := by
  rw [outcome_past, h]
  cases head with
  | tag n => exact absurd rfl (ht n)
  | _ => rfl

theorem outcome_untagged_write (major : Nat) {n : Nat} {head : Head} (hm : ofArgument? major (some n) = some head)
    (ht : ∀ n, head ≠ .tag n) (hn : n < UInt64.size) (rest : Octets) :
    outcome (untagged (write major n ++ rest)) = .ok (head, rest) :=
  outcome_past_of_read _ (outcome_read_write major hm hn rest) ht

end Head

/-! ## Strings -/

theorem outcome_take {n : Nat} {s front rest : Octets} {r : Rest s} (hr : r.1 = front ++ rest)
    (hn : front.length = n) : outcome (take n r) = .ok (front, rest) := by
  have hs : r.1.split? n = some (front, rest) := by rw [hr, Octets.split?_append hn]
  unfold take
  split
  · next h => rw [hs] at h; cases h
  · next h =>
    rw [hs] at h
    cases h
    rfl

/-- The text whose octets come next. -/
theorem outcome_textAfter {t : String} {s rest : Octets} {r : Rest s} (hr : r.1 = Octets.ofText t ++ rest) :
    outcome (textAfter (some t.utf8ByteSize) r) = .ok (t, rest) := by
  obtain ⟨hq, h⟩ := exists_of_outcome (outcome_take hr (Octets.length_ofText t))
  have ht : textOf? [Octets.ofText t] = some t := by
    simp [textOf?, Octets.text?_ofText, String.join_cons]
  simp only [textAfter, chunks, h, ht]
  rfl

/-- **Texts are read back.** -/
theorem outcome_readText_write {t : String} (ht : t.utf8ByteSize < UInt64.size) (rest : Octets) :
    outcome (readText (writeText t ++ rest)) = .ok (t, rest) := by
  rw [writeText, List.append_assoc]
  obtain ⟨hq, h⟩ := exists_of_outcome
    (Head.outcome_untagged_write 3 rfl (fun _ h => by cases h) ht (Octets.ofText t ++ rest))
  simp only [readText, h]
  exact outcome_textAfter rfl

/-- A text that is short enough for a key is read as one. -/
theorem outcome_readKey_write {t : String} (ht : t.utf8ByteSize ≤ maxKeyLength) (rest : Octets) :
    outcome (readKey (writeText t ++ rest)) = .ok (Octets.ofText t, rest) := by
  have hlt : t.utf8ByteSize < UInt64.size := Nat.lt_of_le_of_lt ht (by decide)
  rw [writeText, List.append_assoc]
  obtain ⟨hq, h⟩ := exists_of_outcome
    (Head.outcome_untagged_write 3 rfl (fun _ h => by cases h) hlt (Octets.ofText t ++ rest))
  obtain ⟨hq', h'⟩ := exists_of_outcome
    (outcome_take (r := ⟨Octets.ofText t ++ rest, hq⟩) rfl (Octets.length_ofText t))
  simp only [readKey, h, if_pos ht, h', Octets.text?_ofText, Option.isSome_some, if_true]
  rfl

/-! ## Numbers -/

/-- **Numbers are read back.** -/
theorem outcome_readNatural_write {n : Nat} (hn : n < UInt64.size) (rest : Octets) :
    outcome (readNatural (writeNatural n ++ rest)) = .ok (n, rest) := by
  obtain ⟨hq, h⟩ := exists_of_outcome (Head.outcome_past_of_read
    (fun n => n ≠ bigNatural && n ≠ bigNegative) (Head.outcome_read_write 0 rfl hn rest)
    (fun _ h => by cases h))
  simp only [readNatural, writeNatural, h]
  rfl

/-- A number as a big number: a tag, and an octet string of the given width. -/
def writeBig (width n : Nat) : Octets := Head.write 6 bigNatural ++ (Head.write 2 width ++ Octets.bigEndian width n)

/-- **Big numbers are read back.** -/
theorem outcome_readNatural_writeBig {width n : Nat} (hw : width ≤ maxBigOctets) (hn : n < 256 ^ width)
    (rest : Octets) : outcome (readNatural (writeBig width n ++ rest)) = .ok (n, rest) := by
  have hword : maxBigOctets < UInt64.size := by decide
  rw [writeBig, List.append_assoc, List.append_assoc]
  have hpast : outcome (Head.past (fun n => n ≠ bigNatural && n ≠ bigNegative)
      (Head.write 6 bigNatural ++ (Head.write 2 width ++ (Octets.bigEndian width n ++ rest)))) =
        .ok (.tag bigNatural, Head.write 2 width ++ (Octets.bigEndian width n ++ rest)) := by
    rw [Head.outcome_past, Head.outcome_read_write 6 rfl (by decide)]
    rfl
  obtain ⟨hq, h⟩ := exists_of_outcome hpast
  obtain ⟨hq', h'⟩ := exists_of_outcome (Head.outcome_read_write 2
    (show Head.ofArgument? 2 (some width) = some (.octets (some width)) from rfl) (show width < UInt64.size by omega)
    (Octets.bigEndian width n ++ rest))
  obtain ⟨hq'', h''⟩ := exists_of_outcome (outcome_take (r := ⟨_, hq'⟩) rfl (Octets.length_bigEndian width n))
  have hlen : ((Octets.bigEndian width n).dropWhile (· == 0)).length ≤ maxBigOctets := by
    have := (List.dropWhile_sublist (l := Octets.bigEndian width n) (· == 0)).length_le
    rw [Octets.length_bigEndian] at this
    omega
  have hbig : readBigOctets (Head.write 2 width ++ (Octets.bigEndian width n ++ rest)) = .ok (n, ⟨rest, hq''⟩) := by
    simp only [readBigOctets, h', chunks, h'', List.flatten_singleton, if_pos hlen, Octets.number_dropWhile_zero,
      Octets.number_bigEndian hn]
  simp only [readNatural, h, if_pos, hbig]
  rfl

end CoinRelay.Cbor
