import CoinRelay.Proofs.Cbor.RoundTrip
import CoinRelay.Wire.Message
import Mathlib.Data.List.Forall2

/-!
# Records, messages and frames are read back

A record whose fields have distinct names and whose values suit them is read back from its map (`Record.outcome_read`),
and so is a list of such records (`outcome_readList`). All the parts of messages are such records (`LawfulRecord`), so

- `Message.decode_body`: a body within the limit gives the message it was written for;
- `Frame.decode_encode`: the octets of a frame give the frame, whatever comes after them;
- `Message.ofFrame_toFrame`: the two together.
-/

namespace CoinRelay.Wire

open Cbor

/-! ## Scalars -/

/-- The scalars that a field of the kind may hold. -/
def FieldKind.Holds : FieldKind → Scalar → Prop
  | text, .text _ => True
  | number bits, .number n => n < 1 <<< bits ∧ n < UInt64.size
  | tier, .tier _ => True
  | _, _ => False

theorem outcome_readNumber_write {bits n : Nat} (hb : n < 1 <<< bits) (hn : n < UInt64.size) (rest : Octets) :
    outcome (readNumber bits (writeNatural n ++ rest)) = .ok (n, rest) := by
  obtain ⟨hq, h⟩ := exists_of_outcome (outcome_readNatural_write hn rest)
  simp only [readNumber, h, if_pos hb]
  rfl

theorem outcome_readTier_write (t : Tier) (rest : Octets) :
    outcome (readTier (writeNatural t.code.toNat ++ rest)) = .ok (t, rest) := by
  have hb : t.code.toNat < 1 <<< 8 := t.code.toNat_lt
  obtain ⟨hq, h⟩ := exists_of_outcome (outcome_readNumber_write hb (Nat.lt_of_lt_of_le hb (by decide)) rest)
  simp only [readTier, h, UInt8.ofNat_toNat, Tier.ofCode?_code]
  rfl

theorem holds_number_32 (n : UInt32) : (FieldKind.number 32).Holds (.number n.toNat) :=
  ⟨n.toNat_lt, Nat.lt_of_lt_of_le n.toNat_lt (by decide)⟩

theorem utf8ByteSize_le_length_writeText (s : String) : s.utf8ByteSize ≤ (writeText s).length := by
  rw [writeText, List.length_append, Octets.length_ofText]
  omega

/-- **Scalars are read back** by the kinds that hold them. -/
theorem FieldKind.outcome_read {kind : FieldKind} {v : Scalar} (hv : kind.Holds v)
    (hl : v.write.length < UInt64.size) (rest : Octets) : outcome (kind.read (v.write ++ rest)) = .ok (v, rest) := by
  cases kind with
  | text =>
    cases v with
    | text s =>
      have hs := utf8ByteSize_le_length_writeText s
      rw [FieldKind.read, outcome_map, Scalar.write, outcome_readText_write (Nat.lt_of_le_of_lt hs hl)]
      rfl
    | _ => exact hv.elim
  | number bits =>
    cases v with
    | number n =>
      rw [FieldKind.read, outcome_map, Scalar.write, outcome_readNumber_write hv.1 hv.2]
      rfl
    | _ => exact hv.elim
  | tier =>
    cases v with
    | tier t =>
      rw [FieldKind.read, outcome_map, Scalar.write, outcome_readTier_write]
      rfl
    | _ => exact hv.elim

/-! ## Records -/

/-- A record whose fields have short, distinct names and whose values suit their fields and determine it. -/
class LawfulRecord (α : Type) [Record α] : Prop where
  nodup : ((Record.fields α).map (·.name)).Nodup
  short : ∀ f ∈ Record.fields α, f.name.utf8ByteSize ≤ maxKeyLength
  few : (Record.fields α).length < 24
  holds : ∀ a : α, List.Forall₂ (fun f v => f.kind.Holds v) (Record.fields α) (Record.toScalars a)
  ofScalars?_toScalars : ∀ a : α, Record.ofScalars? (Record.toScalars a) = some a

namespace Record

/-- The octets of a name find the field of that name. -/
theorem field?_ofText {fields : List Field} (hd : (fields.map (·.name)).Nodup) {f : Field} (hf : f ∈ fields) :
    field? fields (Octets.ofText f.name) = some f := by
  induction fields with
  | nil => cases hf
  | cons g fields ih =>
    rw [List.map_cons, List.nodup_cons] at hd
    unfold field?
    rcases List.mem_cons.1 hf with rfl | hf
    · exact List.find?_cons_of_pos (by simp)
    · have hne : g.name ≠ f.name := fun h => hd.1 (h ▸ List.mem_map_of_mem hf)
      rw [List.find?_cons_of_neg (by simpa using fun h => hne (Octets.ofText_inj h))]
      exact ih hd.2 hf

theorem of_field? {fields : List Field} {key : Octets} {f : Field} (h : field? fields key = some f) :
    f ∈ fields ∧ Octets.ofText f.name = key :=
  ⟨List.mem_of_find?_eq_some h, by simpa using List.find?_some h⟩

/-- An entry is a key that names a field nobody named before, and a value for that field. -/
theorem outcome_readEntry_of {fields : List Field} {skip : Reader Unit} {found : Found} {f : Field} {v : Scalar}
    {s value rest : Octets} (hkey : outcome (readKey s) = .ok (Octets.ofText f.name, value))
    (hf : field? fields (Octets.ofText f.name) = some f) (hl : found.lookup f.name = none)
    (hv : outcome (f.kind.read value) = .ok (v, rest)) :
    outcome (readEntry fields skip found s) = .ok ((f.name, v) :: found, rest) := by
  rw [readEntry, outcome_andThen, hkey]
  simp only [Except.bind, hf, hl]
  rw [outcome_map, hv]
  rfl

/-- **Entries are read back** and entered under their names. -/
theorem outcome_readEntry {fields : List Field} (skip : Reader Unit) {found : Found} {f : Field} {v : Scalar}
    (hf : field? fields (Octets.ofText f.name) = some f) (hs : f.name.utf8ByteSize ≤ maxKeyLength)
    (hl : found.lookup f.name = none) (hv : f.kind.Holds v) (hw : v.write.length < UInt64.size) (rest : Octets) :
    outcome (readEntry fields skip found (writeEntry f v ++ rest)) = .ok ((f.name, v) :: found, rest) := by
  rw [writeEntry, List.append_assoc]
  exact outcome_readEntry_of (outcome_readKey_write hs _) hf hl (FieldKind.outcome_read hv hw rest)

/-- The entries of some fields, read one after the other, end up under their names and leave the others alone. -/
theorem outcome_foldCount_readEntry {fields : List Field} (skip : Reader Unit)
    (hd : (fields.map (·.name)).Nodup) (hshort : ∀ f ∈ fields, f.name.utf8ByteSize ≤ maxKeyLength)
    {todo : List Field} {vs : List Scalar} (hv : List.Forall₂ (fun f v => f.kind.Holds v) todo vs)
    (hsub : todo.Sublist fields) (rest : Octets)
    (hlen : (List.zipWith writeEntry todo vs).flatten.length < UInt64.size) (found : Found)
    (hfound : ∀ f ∈ todo, found.lookup f.name = none) :
    ∃ found', outcome (foldCount (readEntry fields skip) todo.length found
        (Tail.whole ((List.zipWith writeEntry todo vs).flatten ++ rest))) = .ok (found', rest) ∧
      List.Forall₂ (fun f v => found'.lookup f.name = some v) todo vs ∧
      ∀ n, n ∉ todo.map (·.name) → found'.lookup n = found.lookup n := by
  induction hv generalizing found with
  | nil => exact ⟨found, rfl, .nil, fun _ _ => rfl⟩
  | @cons f v todo vs hfv _ ih =>
    have hmem : f ∈ fields := hsub.subset List.mem_cons_self
    have hdt : ((f :: todo).map (·.name)).Nodup := (hsub.map _).nodup hd
    rw [List.map_cons, List.nodup_cons] at hdt
    simp only [List.zipWith_cons_cons, List.flatten_cons, List.length_append] at hlen ⊢
    have hw : v.write.length < UInt64.size := by
      rw [writeEntry, List.length_append] at hlen
      omega
    have hnext : ∀ g ∈ todo, List.lookup g.name ((f.name, v) :: found) = none := by
      intro g hg
      have hne : g.name ≠ f.name := fun h => hdt.1 (h ▸ List.mem_map_of_mem hg)
      rw [List.lookup_cons, beq_false_of_ne hne]
      exact hfound g (List.mem_cons_of_mem _ hg)
    obtain ⟨found', hr, hall, hother⟩ :=
      ih ((List.sublist_cons_self f todo).trans hsub) (by omega) ((f.name, v) :: found) hnext
    refine ⟨found', ?_, .cons ?_ hall, ?_⟩
    · rw [List.length_cons, outcome_foldCount_succ]
      show (outcome (readEntry fields skip found (writeEntry f v ++ _ ++ rest))).bind _ = _
      rw [List.append_assoc, outcome_readEntry skip (field?_ofText hd hmem) (hshort f hmem) (hfound f List.mem_cons_self) hfv hw]
      exact hr
    · rw [hother f.name hdt.1, List.lookup_cons, beq_self_eq_true]
    · intro n hn
      rw [List.map_cons, List.mem_cons, not_or] at hn
      rw [hother n hn.2, List.lookup_cons, beq_false_of_ne hn.1]

/-- The values in the order of the fields are those found under their names. -/
theorem inOrder?_eq_some_iff {fields : List Field} {vs : List Scalar} {found : Found} :
    inOrder? fields found = some vs ↔ List.Forall₂ (fun f v => found.lookup f.name = some v) fields vs := by
  induction fields generalizing vs with
  | nil => simp [inOrder?, eq_comm]
  | cons f fields ih =>
    unfold inOrder? at ih ⊢
    simp only [List.mapM_cons, Option.bind_eq_bind, Option.bind_eq_some_iff, Option.pure_def, Option.some.injEq]
    constructor
    · rintro ⟨v, hv, vs, hvs, rfl⟩
      exact .cons hv (ih.1 hvs)
    · rintro (_ | ⟨hv, hvs⟩)
      exact ⟨_, hv, _, ih.2 hvs, rfl⟩

variable {α : Type} [Record α]

/-- A record is the head of a map and the entries that the head announces, in any order. -/
theorem outcome_read_of (found : Found) {depth : Nat} {length : Option Nat} {a : α} {s entries rest : Octets}
    (hhead : outcome (Head.untagged s) = .ok (.map length, entries))
    (hitems : ∀ r : Rest s, r.1 = entries →
      outcome (foldItems (readEntry (fields α) (skipper depth)) length [] r) = .ok (found, rest))
    (ha : (inOrder? (fields α) found).bind ofScalars? = some a) :
    outcome (read (α := α) (depth + 1) s) = .ok (a, rest) := by
  obtain ⟨hq, h⟩ := exists_of_outcome hhead
  obtain ⟨hq', h'⟩ := exists_of_outcome (hitems ⟨entries, hq⟩ rfl)
  simp only [read, h, h', ha]
  rfl

/-- **Records are read back.** -/
theorem outcome_read [LawfulRecord α] {a : α} (ha : (write a).length < UInt64.size) (depth : Nat) (rest : Octets) :
    outcome (read (α := α) (depth + 1) (write a ++ rest)) = .ok (a, rest) := by
  rw [write, List.append_assoc]
  rw [write, List.length_append] at ha
  obtain ⟨found, hfound, hall, -⟩ := outcome_foldCount_readEntry (skipper depth)
    LawfulRecord.nodup LawfulRecord.short (LawfulRecord.holds a) (List.Sublist.refl _) rest (by omega) []
    (fun _ _ => rfl)
  refine outcome_read_of found (Head.outcome_untagged_write 5 rfl (fun _ h => by cases h)
    (Nat.lt_trans (LawfulRecord.few (α := α)) (by decide)) _) (fun r hr => ?_) ?_
  · rw [outcome_foldItems_some, hr]
    exact hfound
  · rw [inOrder?_eq_some_iff.2 hall, Option.bind_some, LawfulRecord.ofScalars?_toScalars]

end Record

/-! ## Lists of records -/

section Lists

variable {α : Type} [Record α]

theorem Record.length_write_pos (a : α) : 0 < (Record.write a).length := by
  rw [Record.write, List.length_append]
  exact Nat.lt_of_lt_of_le (Head.length_write_pos _ _) (Nat.le_add_right _ _)

/-- A list is no longer than its octets. -/
theorem length_le_length_flatMap_write (as : List α) : as.length ≤ (as.flatMap Record.write).length := by
  induction as with
  | nil => exact Nat.le_refl _
  | cons a as ih =>
    have := Record.length_write_pos a
    rw [List.flatMap_cons, List.length_append, List.length_cons]
    omega

/-- A list of records is its head and the records that the head announces. -/
theorem outcome_readList_of {depth : Nat} {length : Option Nat} {as : List α} {s items rest : Octets}
    (hhead : outcome (Head.untagged s) = .ok (.list length, items))
    (hitems : ∀ r : Rest s, r.1 = items →
      outcome (foldItems (fun as => (Record.read depth).map (· :: as)) length [] r) = .ok (as.reverse, rest)) :
    outcome (readList (depth + 1) s) = .ok (as, rest) := by
  obtain ⟨hq, h⟩ := exists_of_outcome hhead
  obtain ⟨hq', h'⟩ := exists_of_outcome (hitems ⟨items, hq⟩ rfl)
  simp only [readList, h, h', List.reverse_reverse]
  rfl

variable [LawfulRecord α]

theorem outcome_foldCount_read (depth : Nat) {as : List α} (rest : Octets)
    (h : (as.flatMap Record.write).length < UInt64.size) (read : List α) :
    outcome (foldCount (fun as => (Record.read (depth + 1)).map (· :: as)) as.length read
      (Tail.whole (as.flatMap Record.write ++ rest))) = .ok (as.reverse ++ read, rest) := by
  induction as generalizing read with
  | nil => rfl
  | cons a as ih =>
    rw [List.flatMap_cons, List.length_append] at h
    rw [List.length_cons, outcome_foldCount_succ, List.flatMap_cons]
    show (outcome (Reader.map _ _ (Record.write a ++ _ ++ rest))).bind _ = _
    rw [List.append_assoc, outcome_map, Record.outcome_read (by omega)]
    refine (ih (by omega) (a :: read)).trans ?_
    rw [List.reverse_cons, List.append_assoc, List.singleton_append]

/-- **Lists of records are read back.** -/
theorem outcome_readList {as : List α} (h : (writeList as).length < UInt64.size) (depth : Nat) (rest : Octets) :
    outcome (readList (depth + 2) (writeList as ++ rest)) = .ok (as, rest) := by
  rw [writeList, List.length_append] at h
  have hn := length_le_length_flatMap_write as
  rw [writeList, List.append_assoc]
  refine outcome_readList_of (Head.outcome_untagged_write 4 rfl (fun _ h => by cases h)
    (show as.length < UInt64.size by omega) (as.flatMap Record.write ++ rest)) fun r hr => ?_
  rw [outcome_foldItems_some, hr, ← List.append_nil as.reverse]
  exact outcome_foldCount_read depth rest (by omega) []

end Lists

/-! ## The records of messages -/

instance : LawfulRecord Coin where
  nodup := by decide
  short := by decide
  few := by decide
  holds c := .cons trivial (.cons ⟨c.keyId.word.toNat_lt, c.keyId.word.toNat_lt⟩
    (.cons trivial (.cons trivial (.cons trivial .nil))))
  ofScalars?_toScalars c := by simp [Record.ofScalars?, Record.toScalars]

instance : LawfulRecord Packet where
  nodup := by decide
  short := by decide
  few := by decide
  holds p := .cons trivial (.cons ⟨p.keyId.word.toNat_lt, p.keyId.word.toNat_lt⟩
    (.cons trivial (.cons trivial (.cons trivial (.cons trivial .nil)))))
  ofScalars?_toScalars p := by simp [Record.ofScalars?, Record.toScalars]

instance : LawfulRecord FetchRequest where
  nodup := by decide
  short := by decide
  few := by decide
  holds _ := .cons trivial (.cons trivial .nil)
  ofScalars?_toScalars _ := rfl

instance : LawfulRecord UserRequest where
  nodup := by decide
  short := by decide
  few := by decide
  holds _ := .cons trivial .nil
  ofScalars?_toScalars _ := rfl

instance : LawfulRecord PublishAck where
  nodup := by decide
  short := by decide
  few := by decide
  holds a := .cons (holds_number_32 a.accepted) (.cons (holds_number_32 a.duplicates) .nil)
  ofScalars?_toScalars a := by simp [Record.ofScalars?, Record.toScalars]

instance : LawfulRecord Tier.Counts where
  nodup := by decide
  short := by decide
  few := by decide
  holds c := .cons (holds_number_32 c.gold) (.cons (holds_number_32 c.silver) (.cons (holds_number_32 c.bronze) .nil))
  ofScalars?_toScalars c := by simp [Record.ofScalars?, Record.toScalars]

instance : LawfulRecord Refusal where
  nodup := by decide
  short := by decide
  few := by decide
  holds r := .cons ⟨r.code.toNat_lt, Nat.lt_of_lt_of_le r.code.toNat_lt (by decide)⟩ (.cons trivial .nil)
  ofScalars?_toScalars r := by simp [Record.ofScalars?, Record.toScalars]

/-! ## Messages -/

namespace Message

theorem front_eq_ok {α : Type} {read : Reader α} {body rest : Octets} {a : α}
    (h : outcome (read body) = .ok (a, rest)) : front read body = .ok a := by
  obtain ⟨hq, h⟩ := exists_of_outcome h
  simp only [front, h]

/-- **Messages are read back** from their bodies, whatever comes after them within the limit. -/
theorem decode_body {m : Message} (rest : Octets) (h : (m.body ++ rest).length ≤ maxPayload) :
    decode m.opcode (m.body ++ rest) = .ok m := by
  have hm : m.body.length < UInt64.size := by
    rw [List.length_append] at h
    exact Nat.lt_of_le_of_lt (Nat.le_trans (Nat.le_add_right _ _) h) (by decide)
  rw [decode, if_neg (Nat.not_lt.2 h)]
  cases m with
  | publish coins => exact congrArg (Except.map publish) (front_eq_ok (outcome_readList hm _ rest))
  | mailbox packets => exact congrArg (Except.map mailbox) (front_eq_ok (outcome_readList hm _ rest))
  | fetch request => exact congrArg (Except.map fetch) (front_eq_ok (Record.outcome_read hm _ rest))
  | send packet => exact congrArg (Except.map send) (front_eq_ok (Record.outcome_read hm _ rest))
  | drain request => exact congrArg (Except.map drain) (front_eq_ok (Record.outcome_read hm _ rest))
  | count request => exact congrArg (Except.map count) (front_eq_ok (Record.outcome_read hm _ rest))
  | publishAck ack => exact congrArg (Except.map publishAck) (front_eq_ok (Record.outcome_read hm _ rest))
  | coinGranted coin => exact congrArg (Except.map coinGranted) (front_eq_ok (Record.outcome_read hm _ rest))
  | counts held => exact congrArg (Except.map counts) (front_eq_ok (Record.outcome_read hm _ rest))
  | error refusal => exact congrArg (Except.map error) (front_eq_ok (Record.outcome_read hm _ rest))
  | notFound => rfl
  | sendAck => rfl

end Message

/-! ## Frames -/

namespace Frame

theorem parse_toOctets {h : Header} (hs : h.payloadSize.toNat ≤ maxPayload) (rest : Octets) :
    Header.parse (h.toOctets ++ rest) = .ok h := by
  have hn : Octets.number (Octets.bigEndian 4 h.payloadSize.toNat) = h.payloadSize.toNat :=
    Octets.number_bigEndian h.payloadSize.toNat_lt
  have hm : Octets.number (Octets.bigEndian 4 Header.magic.toNat) = Header.magic.toNat := by decide
  simp only [Header.toOctets, Octets.bigEndian, List.nil_append, List.cons_append, Header.parse] at hn hm ⊢
  rw [hn, hm, if_neg (by simp), if_neg (by simp), if_neg (by omega), UInt32.ofNat_toNat]

theorem length_toOctets (h : Header) : h.toOctets.length = headerSize := by
  simp [Header.toOctets, Octets.length_bigEndian, headerSize]

/-- **Frames are read back** from their octets, whatever comes after them. -/
theorem decode_encode {f : Frame} {o : Octets} (h : f.encode = .ok o) (rest : Octets) :
    decode (o ++ rest) = .ok f := by
  unfold encode at h
  split at h
  · cases h
  · next hl =>
    cases h
    have hsize : f.header.payloadSize.toNat = f.payload.length := by
      have : maxPayload < UInt32.size := by decide
      have : maxSizeField = UInt32.size - 1 := rfl
      rw [header, UInt32.toNat_ofNat_of_lt' (by omega), Nat.min_eq_left (by omega)]
    rw [decode, List.append_assoc, parse_toOctets (by omega)]
    have hd : (f.header.toOctets ++ (f.payload ++ rest)).drop headerSize = f.payload ++ rest :=
      List.drop_left' (length_toOctets _)
    simp only [hd, hsize, Octets.split?_append rfl]
    rfl

end Frame

/-- The frame of a message holds the message. -/
theorem Message.ofFrame_toFrame {m : Message} (h : m.body.length ≤ maxPayload) : ofFrame m.toFrame = .ok m := by
  have hb := decode_body (m := m) [] (by rwa [List.append_nil])
  rw [List.append_nil] at hb
  simp only [ofFrame, toFrame, Opcode.ofCode?_code]
  exact hb

/-- **A message within the limit goes into a frame and comes back out of its octets.** -/
theorem Message.exists_frame {m : Message} (h : m.body.length ≤ maxPayload) :
    ∃ o f, m.toFrame.encode = .ok o ∧ Frame.decode o = .ok f ∧ ofFrame f = .ok m := by
  have hencode : m.toFrame.encode = .ok (m.toFrame.header.toOctets ++ m.body) := if_neg (Nat.not_lt.2 h)
  have hdecode := Frame.decode_encode hencode []
  rw [List.append_nil] at hdecode
  exact ⟨_, _, hencode, hdecode, ofFrame_toFrame h⟩

end CoinRelay.Wire
