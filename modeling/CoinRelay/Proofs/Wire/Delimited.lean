import CoinRelay.Proofs.Cbor.Delimited
import CoinRelay.Proofs.Wire.RoundTrip

/-!
# Bodies end where they end

A record, and a list of records, is read the same whatever octets come behind it (`Record.read_delimited`,
`readList_delimited`). So a message is read back from its frame and from its body with more behind it, but from no
part of the body that breaks off before its end (`Message.roundTrip_delimited`).
-/

namespace CoinRelay.Wire

open Cbor

/-! ## Values -/

theorem readNumber_delimited (bits : Nat) : (readNumber bits).Delimited := by
  intro s rest n h more
  obtain ⟨_, h⟩ := exists_of_outcome h
  unfold readNumber at h ⊢
  split at h
  · cases h
  next m r hread =>
    obtain ⟨r', hread', hr⟩ := readNatural_delimited.exists_eq_ok (w := s ++ more) rfl hread
    rw [hread']
    simp only at h ⊢
    split at h
    · next hm =>
      cases h
      rw [if_pos hm]
      exact congrArg (fun o => Except.ok (n, o)) hr
    · cases h

theorem readTier_delimited : readTier.Delimited := by
  intro s rest t h more
  obtain ⟨_, h⟩ := exists_of_outcome h
  unfold readTier at h ⊢
  split at h
  · cases h
  next n r hread =>
    obtain ⟨r', hread', hr⟩ := (readNumber_delimited 8).exists_eq_ok (w := s ++ more) rfl hread
    rw [hread']
    simp only at h ⊢
    split at h
    · cases h
      exact congrArg (fun o => Except.ok (t, o)) hr
    · cases h

theorem FieldKind.read_delimited (kind : FieldKind) : kind.read.Delimited := by
  cases kind with
  | text => exact map_delimited _ readText_delimited
  | number bits => exact map_delimited _ (readNumber_delimited bits)
  | tier => exact map_delimited _ readTier_delimited

/-! ## Records -/

theorem Record.readEntry_delimited (fields : List Field) (depth : Nat) (found : Found) :
    (readEntry fields (skipper depth) found).Delimited := by
  refine andThen_delimited readKey_delimited fun key => ?_
  cases field? fields key with
  | none => exact map_delimited _ (skipper_delimited depth)
  | some f =>
    cases hl : found.lookup f.name with
    | some v =>
      simp only [hl]
      intro s rest found' h
      cases h
    | none =>
      simp only [hl]
      exact map_delimited _ (FieldKind.read_delimited f.kind)

section Records

variable {α : Type} [Record α]

/-- **Records end where they end.** -/
theorem Record.read_delimited (depth : Nat) : (Record.read (α := α) depth).Delimited := by
  intro s rest a h more
  obtain ⟨_, h⟩ := exists_of_outcome h
  unfold Record.read at h ⊢
  split at h
  · cases h
  · next length r hhead =>
    obtain ⟨r', hhead', hr⟩ :=
      Reader.Delimited.exists_eq_ok (Head.past_delimited _) (w := s ++ more) rfl hhead
    simp only [show Head.untagged (s ++ more) = _ from hhead']
    cases depth with
    | zero => cases h
    | succ depth =>
      simp only at h ⊢
      split at h
      · cases h
      next found q hitems =>
        obtain ⟨q', hitems', hq⟩ := exists_rest_of_outcome
          (foldItems_delimited (readEntry_delimited (fields α) depth) hr (outcome_of_eq_ok hitems))
        simp only [hitems']
        split at h
        · cases h
        · cases h
          exact congrArg (fun o => Except.ok (a, o)) hq
  · cases h

/-- **Lists of records end where they end.** -/
theorem readList_delimited (depth : Nat) : (readList (α := α) depth).Delimited := by
  intro s rest as h more
  obtain ⟨_, h⟩ := exists_of_outcome h
  unfold readList at h ⊢
  split at h
  · cases h
  · next length r hhead =>
    obtain ⟨r', hhead', hr⟩ :=
      Reader.Delimited.exists_eq_ok (Head.past_delimited _) (w := s ++ more) rfl hhead
    simp only [show Head.untagged (s ++ more) = _ from hhead']
    cases depth with
    | zero => cases h
    | succ depth =>
      simp only at h ⊢
      split at h
      · cases h
      next read q hitems =>
        cases h
        obtain ⟨q', hitems', hq⟩ := exists_rest_of_outcome (foldItems_delimited
          (fun _ => map_delimited _ (Record.read_delimited depth)) hr (outcome_of_eq_ok hitems))
        simp only [hitems']
        exact congrArg (fun o => Except.ok (read.reverse, o)) hq
  · next length r hhead =>
    obtain ⟨r', hhead', hr⟩ :=
      Reader.Delimited.exists_eq_ok (Head.past_delimited _) (w := s ++ more) rfl hhead
    simp only [show Head.untagged (s ++ more) = _ from hhead']
    split at h
    · cases h
    next cs q hcs =>
      obtain ⟨q', hcs', hq⟩ := exists_rest_of_outcome (chunks_append hr (outcome_of_eq_ok hcs))
      simp only [hcs']
      split at h
      · next hempty =>
        cases h
        rw [if_pos hempty]
        exact congrArg (fun o => Except.ok ([], o)) hq
      · cases h
  · cases h

end Records

/-! ## Messages -/

namespace Message

/-- What a body ends with cannot be cut off. -/
theorem map_front_error {α β : Type} {read : Reader α} (hd : read.Delimited) {a : α} {front rest : Octets}
    (h : outcome (read (front ++ rest)) = .ok (a, [])) (hrest : rest ≠ []) (f : α → β) :
    ∃ e, (Message.front read front).map f = .error e := by
  obtain ⟨fault, hfault⟩ := hd.error_of_append h hrest
  exact ⟨.decodeFailed fault.message, by simp only [Message.front, hfault, Except.map]⟩

/-- No part of a body that breaks off before its end holds a message. -/
theorem decode_error_of_append {m : Message} {front rest : Octets} (hm : m.body = front ++ rest) (hrest : rest ≠ [])
    (hlen : m.body.length ≤ maxPayload) : ∃ e, decode m.opcode front = .error e := by
  have hfront : front.length ≤ maxPayload := by
    rw [hm, List.length_append] at hlen
    omega
  have hword : m.body.length < UInt64.size := Nat.lt_of_le_of_lt hlen (by decide)
  have hlist {α : Type} [Record α] [LawfulRecord α] (as : List α) (h : m.body = writeList as) :
      outcome (readList nestingLimit (front ++ rest)) = .ok (as, []) := by
    have hread := outcome_readList (h ▸ hword) 254 []
    rwa [List.append_nil, ← h, hm] at hread
  have hrecord {α : Type} [Record α] [LawfulRecord α] (a : α) (h : m.body = Record.write a) :
      outcome (Record.read nestingLimit (front ++ rest)) = .ok (a, []) := by
    have hread := Record.outcome_read (h ▸ hword) 255 []
    rwa [List.append_nil, ← h, hm] at hread
  rw [decode, if_neg (Nat.not_lt.2 hfront)]
  cases m with
  | publish coins => exact map_front_error (readList_delimited _) (hlist coins rfl) hrest _
  | mailbox packets => exact map_front_error (readList_delimited _) (hlist packets rfl) hrest _
  | fetch request => exact map_front_error (Record.read_delimited _) (hrecord request rfl) hrest _
  | send packet => exact map_front_error (Record.read_delimited _) (hrecord packet rfl) hrest _
  | drain request => exact map_front_error (Record.read_delimited _) (hrecord request rfl) hrest _
  | count request => exact map_front_error (Record.read_delimited _) (hrecord request rfl) hrest _
  | publishAck ack => exact map_front_error (Record.read_delimited _) (hrecord ack rfl) hrest _
  | coinGranted coin => exact map_front_error (Record.read_delimited _) (hrecord coin rfl) hrest _
  | counts held => exact map_front_error (Record.read_delimited _) (hrecord held rfl) hrest _
  | error refusal => exact map_front_error (Record.read_delimited _) (hrecord refusal rfl) hrest _
  | notFound | sendAck => exact absurd (List.append_eq_nil_iff.1 hm.symm).2 hrest

/-- **Messages are read back, and bodies end where they end**: a message within the limit goes into a frame and comes
back out of it; its body gives it with anything behind, and nothing that breaks off before the end does. -/
theorem roundTrip_delimited (m : Message) (h : m.body.length ≤ maxPayload) :
    (∃ o f, m.toFrame.encode = .ok o ∧ Frame.decode o = .ok f ∧ ofFrame f = .ok m) ∧
      (∀ more, (m.body ++ more).length ≤ maxPayload → decode m.opcode (m.body ++ more) = .ok m) ∧
      ∀ front, front <+: m.body → front ≠ m.body → ∃ e, decode m.opcode front = .error e := by
  refine ⟨exists_frame h, fun more hmore => decode_body more hmore, ?_⟩
  rintro front ⟨rest, hrest⟩ hne
  refine decode_error_of_append hrest.symm ?_ h
  rintro rfl
  exact hne (by rw [← hrest, List.append_nil])

/-- A packet whose texts reach beyond ASCII and beyond the shortest heads. -/
def greeting : Message :=
  .send {
    recipient := "zoë"
    keyId := ⟨0x100000000⟩
    tier := .bronze
    ciphertext := "00ff"
    payload := "twenty-four octets long."
    nonce := "" }

/-- The packet is read with a stop mark behind it, and not without its last octet. -/
theorem roundTrip_delimited_greeting :
    greeting.body.length ≤ maxPayload ∧ decode .send (greeting.body ++ [0xFF]) = .ok greeting ∧
      ∃ e, decode .send greeting.body.dropLast = .error e := by
  have hlen : greeting.body.length ≤ maxPayload := by decide
  obtain ⟨-, hmore, hfront⟩ := roundTrip_delimited greeting hlen
  exact ⟨hlen, hmore [0xFF] (by decide), hfront _ (List.dropLast_prefix _) (by decide)⟩

end Message

end CoinRelay.Wire
