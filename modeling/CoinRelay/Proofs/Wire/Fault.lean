import CoinRelay.Proofs.Cbor.Fault
import CoinRelay.Proofs.Octets
import CoinRelay.Proofs.ProtocolError
import CoinRelay.Wire.Message

/-!
# Why bodies and frames are refused

A record is refused because it is not one, or for a tier that nobody has (`Fault.Expected`). So whatever octets come,
the text that says why they are refused is short: `Frame.decode_moderate`, `Message.ofFrame_moderate`. A list is refused
for one thing in it that is no record, wherever it stands: `readList_error_of_spoiled`.
-/

namespace CoinRelay.Wire

open Cbor

/-! ## Records -/

/-- The faults of records. -/
inductive Expected : Fault → Prop
  | malformed : Expected .malformed
  | tier (code : UInt8) : Expected (.refused (ProtocolError.invalidTier code).message)

theorem expected_of_malformed {α : Type} {read : Reader α} (h : read.Malformed) : read.Faults Expected :=
  h.mono (by rintro _ rfl; exact .malformed)

theorem readNumber_faults (bits : Nat) : (readNumber bits).Faults Expected := by
  intro s e h
  unfold readNumber at h
  split at h
  · next hs =>
    cases h
    exact expected_of_malformed readNatural_malformed s e hs
  · split at h <;> cases h
    exact .malformed

theorem readTier_faults : readTier.Faults Expected := by
  intro s e h
  unfold readTier at h
  split at h
  · next hs =>
    cases h
    exact readNumber_faults 8 s e hs
  · simp only at h
    split at h <;> cases h
    exact .tier _

theorem FieldKind.read_faults (kind : FieldKind) : kind.read.Faults Expected := by
  cases kind with
  | text => exact map_faults _ (expected_of_malformed readText_malformed)
  | number bits => exact map_faults _ (readNumber_faults bits)
  | tier => exact map_faults _ readTier_faults

theorem Record.readEntry_faults (fields : List Field) (depth : Nat) (found : Found) :
    (readEntry fields (skipper depth) found).Faults Expected := by
  apply andThen_faults (expected_of_malformed readKey_malformed)
  intro key
  cases field? fields key with
  | none => exact map_faults _ (expected_of_malformed (skipper_malformed depth))
  | some f =>
    cases hl : found.lookup f.name with
    | some v =>
      simp only [hl]
      intro s e h
      cases h
      exact .malformed
    | none =>
      simp only [hl]
      exact map_faults _ (FieldKind.read_faults f.kind)

theorem Record.read_faults {α : Type} [Record α] (depth : Nat) : (Record.read (α := α) depth).Faults Expected := by
  intro s e h
  unfold Record.read at h
  split at h
  · next hs =>
    cases h
    exact expected_of_malformed (Head.past_malformed _) s e hs
  · split at h
    · cases h
      exact .malformed
    split at h
    · next hs =>
      cases h
      exact foldItems_fault .malformed (fun found => readEntry_faults _ _ found) hs
    · split at h <;> cases h
      exact .malformed
  · cases h
    exact .malformed

theorem readList_faults {α : Type} [Record α] (depth : Nat) : (readList (α := α) depth).Faults Expected := by
  intro s e h
  unfold readList at h
  split at h
  · next hs =>
    cases h
    exact expected_of_malformed (Head.past_malformed _) s e hs
  · split at h
    · cases h
      exact .malformed
    split at h
    · next hs =>
      cases h
      exact foldItems_fault .malformed (fun _ => map_faults _ (Record.read_faults _)) hs
    · cases h
  · split at h
    · next hs =>
      cases h
      rw [chunks_malformed hs]
      exact .malformed
    · split at h <;> cases h
      exact .malformed
  · cases h
    exact .malformed

/-! ## Lists with something else among the records -/

section Lists

variable {α : Type} [Record α]

/-- What some records leave of octets. -/
inductive AfterRecords (α : Type) [Record α] (depth : Nat) : Nat → Octets → Octets → Prop
  | zero (s : Octets) : AfterRecords α depth 0 s s
  | succ {n : Nat} {s rest t : Octets} {a : α} (h : outcome (Record.read depth s) = .ok (a, rest))
    (ht : AfterRecords α depth n rest t) : AfterRecords α depth (n + 1) s t

/-- One more item is due after `n` of those that a head announced: they are fewer than it said, or there is no stop mark
yet. -/
def Due (length : Option Nat) (n : Nat) (t : Octets) : Prop :=
  match length with
  | some total => n < total
  | none => ∀ rest, outcome (Head.isStop t) ≠ .ok (true, rest)

/-- A list in which, after some records, something is due that is no record. -/
def Spoiled (α : Type) [Record α] (depth : Nat) (body : Octets) : Prop :=
  ∃ length s n t, outcome (Head.untagged body) = .ok (.list length, s) ∧ AfterRecords α depth n s t ∧ Due length n t ∧
    ∀ (a : α) rest, outcome (Record.read depth t) ≠ .ok (a, rest)

/-- A record does not start with a stop mark. -/
theorem isStop_of_read {depth : Nat} {s rest rest' : Octets} {a : α} (h : outcome (Record.read depth s) = .ok (a, rest)) :
    outcome (Head.isStop s) ≠ .ok (true, rest') := by
  intro hstop
  obtain ⟨_, h⟩ := exists_of_outcome h
  rw [Head.isStop, outcome_map] at hstop
  cases hread : outcome (Head.read s) with
  | error e =>
    rw [hread] at hstop
    cases hstop
  | ok y =>
    obtain ⟨head, q⟩ := y
    rw [hread] at hstop
    simp only [Except.map, Except.ok.injEq, Prod.mk.injEq, beq_iff_eq] at hstop
    obtain ⟨rfl, -⟩ := hstop
    obtain ⟨_, hun⟩ := exists_of_outcome (Head.outcome_past_of_read (fun _ => true) hread (fun _ h => by cases h))
    simp only [Record.read, show Head.untagged s = _ from hun] at h
    cases h

theorem foldCount_ne_ok {depth n total : Nat} {s t : Octets} (hafter : AfterRecords α depth n s t) (hn : n < total)
    (hbad : ∀ (a : α) rest, outcome (Record.read depth t) ≠ .ok (a, rest)) (read : List α) (x : List α × Octets) :
    outcome (foldCount (fun as => (Record.read depth).map (· :: as)) total read (Tail.whole s)) ≠ .ok x := by
  intro h
  induction hafter generalizing total read with
  | zero s =>
    cases total with
    | zero => cases hn
    | succ total =>
      rw [outcome_foldCount_succ, bind_eq_ok] at h
      obtain ⟨y, hy, -⟩ := h
      rw [outcome_map] at hy
      cases hread : outcome (Record.read (α := α) depth s) with
      | error e => rw [show (Tail.whole s).1 = s from rfl, hread] at hy; cases hy
      | ok z => exact hbad z.1 z.2 hread
  | @succ n s rest t a ha _ ih =>
    cases total with
    | zero => cases hn
    | succ total =>
      have hitem : outcome ((Record.read depth).map (· :: read) s) = .ok (a :: read, rest) := by
        rw [outcome_map, ha]
        rfl
      rw [outcome_foldCount_cons hitem] at h
      exact ih (Nat.lt_of_succ_lt_succ hn) hbad _ h

theorem foldUntil_ne_ok {depth n : Nat} {s t : Octets} (hafter : AfterRecords α depth n s t)
    (hdue : ∀ rest, outcome (Head.isStop t) ≠ .ok (true, rest))
    (hbad : ∀ (a : α) rest, outcome (Record.read depth t) ≠ .ok (a, rest)) (read : List α) (x : List α × Octets) :
    outcome (foldUntil Head.isStop (fun as => (Record.read depth).map (· :: as)) read (Tail.whole s)) ≠ .ok x := by
  intro h
  induction hafter generalizing read with
  | zero s =>
    rw [outcome_foldUntil, bind_eq_ok] at h
    obtain ⟨⟨stop, q⟩, hq, h⟩ := h
    cases stop with
    | true => exact hdue q hq
    | false =>
      simp only [Bool.false_eq_true, if_false, bind_eq_ok] at h
      obtain ⟨y, hy, -⟩ := h
      rw [outcome_map] at hy
      cases hread : outcome (Record.read (α := α) depth s) with
      | error e => rw [show (Tail.whole s).1 = s from rfl, hread] at hy; cases hy
      | ok z => exact hbad z.1 z.2 hread
  | @succ n s rest t a ha _ ih =>
    rw [outcome_foldUntil, bind_eq_ok] at h
    obtain ⟨⟨stop, q⟩, hq, h⟩ := h
    cases stop with
    | true => exact isStop_of_read ha hq
    | false =>
      simp only [Bool.false_eq_true, if_false, bind_eq_ok] at h
      obtain ⟨y, hy, h⟩ := h
      rw [outcome_map, show (Tail.whole s).1 = s from rfl, ha] at hy
      cases hy
      exact ih hdue hbad _ h

/-- **A list is not read when something in it is no record**, whatever was read before. -/
theorem readList_error_of_spoiled {depth : Nat} {body : Octets} (h : Spoiled α depth body) :
    ∃ e, readList (α := α) (depth + 1) body = .error e := by
  obtain ⟨length, s, n, t, hhead, hafter, hdue, hbad⟩ := h
  obtain ⟨hs, hhead⟩ := exists_of_outcome hhead
  have hitems (x : List α × Octets) :
      outcome (foldItems (fun as => (Record.read depth).map (· :: as)) length [] (⟨s, hs⟩ : Rest body)) ≠ .ok x := by
    cases length with
    | some total =>
      rw [outcome_foldItems_some]
      exact foldCount_ne_ok hafter hdue hbad [] x
    | none =>
      rw [outcome_foldItems_none]
      exact foldUntil_ne_ok hafter hdue hbad [] x
  simp only [readList, hhead]
  cases hfold : foldItems (fun as => (Record.read (α := α) depth).map (· :: as)) length [] (⟨s, hs⟩ : Rest body) with
  | error e => exact ⟨e, rfl⟩
  | ok x => exact absurd (outcome_of_eq_ok hfold) (hitems _)

end Lists

/-! ## Messages -/

theorem Expected.utf8ByteSize_message_le {e : Fault} (h : Expected e) : e.message.utf8ByteSize ≤ 128 := by
  cases h with
  | malformed => decide
  | tier code =>
    have hcode := utf8ByteSize_decimal_le (Nat.lt_trans code.toNat_lt (show 2 ^ 8 < UInt64.size by decide))
    exact Nat.le_trans (append_le (append_le (m := 20) (by decide) (append_le (m := 16) (by decide) hcode))
      (n := 4) (by decide)) (by decide)

namespace Message

theorem front_moderate {α : Type} {read : Reader α} {body : Octets} {e : ProtocolError} (hr : read.Faults Expected)
    (h : front read body = .error e) : e.Moderate := by
  unfold front at h
  split at h
  · cases h
  · next fault hf =>
    cases h
    exact (hr body fault hf).utf8ByteSize_message_le

theorem map_front_moderate {α : Type} {read : Reader α} {body : Octets} {f : α → Message} {e : ProtocolError}
    (hr : read.Faults Expected) (h : (front read body).map f = .error e) : e.Moderate := by
  cases hf : front read body with
  | ok a => rw [hf] at h; cases h
  | error e' =>
    rw [hf] at h
    cases h
    exact front_moderate hr hf

theorem decode_moderate {o : Opcode} {body : Octets} {e : ProtocolError} (hb : body.length < UInt64.size)
    (h : decode o body = .error e) : e.Moderate := by
  unfold decode at h
  split at h
  · cases h
    exact ⟨hb, by decide⟩
  · cases o with
    | notFound | sendAck => cases h
    | publish | mailbox => exact map_front_moderate (readList_faults _) h
    | _ => exact map_front_moderate (Record.read_faults _) h

/-- **A frame that is not understood is refused in few words.** -/
theorem ofFrame_moderate {f : Frame} {e : ProtocolError} (hf : f.payload.length < UInt64.size)
    (h : ofFrame f = .error e) : e.Moderate := by
  unfold ofFrame at h
  split at h
  · exact decode_moderate hf h
  · cases h
    trivial

end Message

/-! ## Frames -/

namespace Frame

/-- Octets that are as long as a header have its twelve. -/
theorem exists_header_octets {o : Octets} (h : headerSize ≤ o.length) :
    ∃ m₀ m₁ m₂ m₃ v opcode r₀ r₁ s₀ s₁ s₂ s₃ rest,
      o = m₀ :: m₁ :: m₂ :: m₃ :: v :: opcode :: r₀ :: r₁ :: s₀ :: s₁ :: s₂ :: s₃ :: rest := by
  match o, h with
  | m₀ :: m₁ :: m₂ :: m₃ :: v :: opcode :: r₀ :: r₁ :: s₀ :: s₁ :: s₂ :: s₃ :: rest, _ =>
    exact ⟨m₀, m₁, m₂, m₃, v, opcode, r₀, r₁, s₀, s₁, s₂, s₃, rest, rfl⟩

theorem parse_moderate {o : Octets} {e : ProtocolError} (h : Header.parse o = .error e) : e.Moderate := by
  unfold Header.parse at h
  split at h
  · next s₀ s₁ s₂ s₃ _ =>
    simp only at h
    split at h
    · cases h
      trivial
    split at h
    · cases h
      trivial
    split at h
    · cases h
      exact ⟨Nat.lt_trans (Octets.number_lt [s₀, s₁, s₂, s₃]) (by decide : 256 ^ 4 < UInt64.size), by decide⟩
    · cases h
  · next hshort =>
    cases h
    have hlt : o.length < headerSize := by
      by_contra hlong
      obtain ⟨m₀, m₁, m₂, m₃, v, opcode, r₀, r₁, s₀, s₁, s₂, s₃, rest, ho⟩ :=
        exists_header_octets (Nat.not_lt.1 hlong)
      exact hshort _ _ _ _ _ _ _ _ _ _ _ _ _ ho
    exact ⟨by decide, Nat.lt_trans hlt (by decide)⟩

/-- **Octets that hold no frame are refused in few words.** -/
theorem decode_moderate {o : Octets} {e : ProtocolError} (h : decode o = .error e) : e.Moderate := by
  unfold decode at h
  split at h
  · next hp =>
    cases h
    exact parse_moderate hp
  · next header hp =>
    split at h
    · cases h
    · next hs =>
      cases h
      -- what is there is shorter than what was announced
      have hlt := Octets.split?_eq_none_iff.1 hs
      have hword : header.payloadSize.toNat < UInt64.size := Nat.lt_trans header.payloadSize.toNat_lt (by decide)
      rw [List.length_drop] at hlt
      exact ⟨hword, Nat.lt_trans hlt hword⟩

theorem headerSize_le_of_parse {o : Octets} {h : Header} (hp : Header.parse o = .ok h) : headerSize ≤ o.length := by
  unfold Header.parse at hp
  split at hp
  · simp only [List.length_cons, headerSize]
    omega
  · cases hp

theorem payloadSize_le_of_parse {o : Octets} {h : Header} (hp : Header.parse o = .ok h) :
    h.payloadSize.toNat ≤ maxPayload := by
  unfold Header.parse at hp
  split at hp
  · simp only at hp
    split at hp
    · cases hp
    split at hp
    · cases hp
    split at hp
    · cases hp
    next hsize =>
      cases hp
      rw [UInt32.toNat_ofNat']
      exact Nat.le_trans (Nat.mod_le _ _) (Nat.not_lt.1 hsize)
  · cases hp

/-- The body of a frame that was read is within the limit. -/
theorem length_payload_le_maxPayload {o : Octets} {f : Frame} (h : decode o = .ok f) :
    f.payload.length ≤ maxPayload := by
  unfold decode at h
  split at h
  · cases h
  next hp =>
    split at h
    · next payload rest hs =>
      cases h
      obtain ⟨-, hlen⟩ := Octets.split?_eq_some_iff.1 hs
      exact hlen ▸ payloadSize_le_of_parse hp
    · cases h

/-- A header and a body come in octets that hold a frame. -/
theorem length_payload_le {o : Octets} {f : Frame} (h : decode o = .ok f) :
    headerSize + f.payload.length ≤ o.length := by
  unfold decode at h
  split at h
  · cases h
  next hp =>
    have hsize := headerSize_le_of_parse hp
    split at h
    · next payload rest hs =>
      cases h
      obtain ⟨hd, -⟩ := Octets.split?_eq_some_iff.1 hs
      have := congrArg List.length hd
      rw [List.length_drop, List.length_append] at this
      show headerSize + payload.length ≤ o.length
      omega
    · cases h

end Frame

end CoinRelay.Wire
