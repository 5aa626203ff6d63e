import CoinRelay.Proofs.Cbor.Item
import CoinRelay.Proofs.Wire.RoundTrip
import Mathlib.Data.List.Nodup

/-!
# Records are made of the entries of their maps

A map may have the fields of a record in any order, other entries among them, an open head, and heads wider than needed.
An entry is a key and a well-formed item (`Entry`). A record is made of the entries of its map alone
(`Record.read_gives`): what they make is `Record.gather`, which reads no octets but those of the values.

- `Record.Gathered`: what is known of a field once some entries were read; each of them keeps it (`Gathered.enter`);
- `Record.gather_eq_ok`: entries that describe a record (`Record.Describes`) make that record; what is written for it is
  a map of such entries (`Record.exists_describes_write`);
- `Record.gather_error_of_count`, `Record.gather_error_of_value`: a field that is not there exactly once, or holds what
  cannot be read for it, makes none.
-/

namespace CoinRelay.Wire

open Cbor

/-! ## Values -/

/-- The octets write the scalar: a text in one piece or in chunks, and a number or the code of a tier as any integer of
that value. -/
inductive Scalar.Spelled : Scalar → Octets → Prop
  | text {ts : List String} {w : Octets} (hw : Chunked .text (ts.map Octets.ofText) w) : Spelled (.text (String.join ts)) w
  | number {n : Nat} {w : Octets} (hw : Integer (.ofNat n) w) : Spelled (.number n) w
  | tier {t : Tier} {w : Octets} (hw : Integer (.ofNat t.code.toNat) w) : Spelled (.tier t) w

theorem Scalar.Spelled.item {v : Scalar} {w : Octets} (h : v.Spelled w) (depth : Nat) : Item depth w := by
  cases h with
  | text hw => exact .text hw
  | number hw => exact .integer hw
  | tier hw => exact .integer hw

/-- What is written for a scalar is one of its forms. -/
theorem Scalar.spelled_write {kind : FieldKind} {v : Scalar} (hv : kind.Holds v) (hl : v.write.length < UInt64.size) :
    v.Spelled v.write := by
  cases v with
  | text s =>
    have hs : (Octets.ofText s).length < UInt64.size := by
      rw [Octets.length_ofText]
      exact Nat.lt_of_le_of_lt (utf8ByteSize_le_length_writeText s) hl
    have hspelled : Scalar.Spelled (.text (String.join [s])) (Head.write 3 (Octets.ofText s).length ++ Octets.ofText s) :=
      .text (.whole (Head.spelled_write 3 hs))
    rwa [Octets.length_ofText, String.join_cons, String.join_nil, String.append_empty] at hspelled
  | number n =>
    cases kind with
    | number => exact .number (.natural (Head.spelled_write 0 hv.2))
    | _ => exact hv.elim
  | tier t => exact .tier (.natural (Head.spelled_write 0 (Nat.lt_trans t.code.toNat_lt (by decide))))

section Values

variable {w : Octets} {x : Except Fault Nat}

/-- A number that is to have so many bits. -/
def narrow (bits n : Nat) : Except Fault Nat :=
  if n < 1 <<< bits then .ok n else .error .malformed

/-- The tier that a number stands for. -/
def tierOf (n : Nat) : Except Fault Tier :=
  match Tier.ofCode? (UInt8.ofNat n) with
  | some t => .ok t
  | none => .error (.refused (ProtocolError.invalidTier (UInt8.ofNat n)).message)

theorem readNumber_gives (bits : Nat) (h : readNatural.Gives w x) : (readNumber bits).Gives w (x.bind (narrow bits)) := by
  refine h.bind fun s => ?_
  unfold readNumber
  cases readNatural s with
  | error e => rfl
  | ok y =>
    by_cases hn : y.1 < 1 <<< bits
    · simp only [outcome, Except.map, Except.bind, narrow, if_pos hn]
    · simp only [outcome, Except.map, Except.bind, narrow, if_neg hn]

theorem readTier_gives (h : readNatural.Gives w x) : readTier.Gives w ((x.bind (narrow 8)).bind tierOf) := by
  refine (readNumber_gives 8 h).bind fun s => ?_
  unfold readTier
  cases readNumber 8 s with
  | error e => rfl
  | ok y =>
    simp only [outcome, Except.map, Except.bind, tierOf]
    cases Tier.ofCode? (UInt8.ofNat y.1) <;> rfl

/-- What a field of the kind makes of the octets of an item. -/
def FieldKind.value (kind : FieldKind) (w : Octets) : Except Fault Scalar :=
  (outcome (kind.read w)).map Prod.fst

theorem FieldKind.value_eq {kind : FieldKind} {v : Except Fault Scalar} (h : kind.read.Gives w v) : kind.value w = v := by
  have hw := h []
  rw [List.append_nil] at hw
  rw [value, hw]
  cases v <;> rfl

/-- **A field reads an item or refuses it**, and takes no more than the item. -/
theorem FieldKind.read_gives {depth : Nat} (kind : FieldKind) (h : Item depth w) : kind.read.Gives w (kind.value w) := by
  have hgives : ∃ v, kind.read.Gives w v := by
    cases kind with
    | text =>
      obtain ⟨x, hx⟩ := h.exists_readText_gives
      exact ⟨_, hx.map _⟩
    | number bits =>
      obtain ⟨x, hx⟩ := h.exists_readNatural_gives
      exact ⟨_, (readNumber_gives bits hx).map _⟩
    | tier =>
      obtain ⟨x, hx⟩ := h.exists_readNatural_gives
      exact ⟨_, (readTier_gives hx).map _⟩
  obtain ⟨v, hv⟩ := hgives
  rwa [value_eq hv]

/-- **A field reads the scalars that it may hold, however they are written.** -/
theorem FieldKind.value_of_spelled {kind : FieldKind} {v : Scalar} (hv : kind.Holds v) (h : v.Spelled w) :
    kind.value w = .ok v := by
  apply value_eq
  cases h with
  | text hw =>
    cases kind with
    | text => exact hw.isText.readText_gives.map _
    | _ => exact hv.elim
  | @number n _ hw =>
    cases kind with
    | number bits =>
      have hgives := (readNumber_gives bits hw.readNatural_gives).map Scalar.number
      rwa [natural?, Except.bind, narrow, if_pos hv.1] at hgives
    | _ => exact hv.elim
  | @tier t _ hw =>
    cases kind with
    | tier =>
      have hgives := (readTier_gives hw.readNatural_gives).map Scalar.tier
      cases t <;> exact hgives
    | _ => exact hv.elim

theorem tierOf_error {n : Nat} (h : 2 < n) (hn : n < 1 <<< 8) : ∃ e, tierOf n = .error e := by
  have hnone : Tier.ofCode? (UInt8.ofNat n) = none := by
    have hcode : (UInt8.ofNat n).toNat = n := UInt8.toNat_ofNat_of_lt' hn
    unfold Tier.ofCode?
    split <;> first | omega | rfl
  exact ⟨_, by rw [tierOf, hnone]⟩

/-- **No tier is read from an integer that is the code of none.** -/
theorem FieldKind.value_tier_error {i : Int} (h : Integer i w) (hi : i < 0 ∨ 2 < i) :
    ∃ e, FieldKind.tier.value w = .error e := by
  have hgives : FieldKind.tier.read.Gives w _ := (readTier_gives h.readNatural_gives).map Scalar.tier
  rw [value_eq hgives]
  cases i with
  | negSucc n => exact ⟨_, rfl⟩
  | ofNat n =>
    have hlt : 2 < n := by
      rcases hi with hi | hi
      · exact absurd hi (by simp)
      · exact Int.ofNat_lt.1 hi
    by_cases hn : n < 1 <<< 8
    · obtain ⟨e, he⟩ := tierOf_error hlt hn
      exact ⟨e, by simp only [natural?, Except.bind, narrow, if_pos hn, he, Except.map]⟩
    · exact ⟨.malformed, by simp only [natural?, Except.bind, narrow, if_neg hn, Except.map]⟩

end Values

/-! ## Entries -/

/-- An entry of a map: a text that is short enough for a key, behind a head of any width, and an item. -/
structure Entry (depth : Nat) where
  key : String
  head : Octets
  value : Octets
  short : key.utf8ByteSize ≤ maxKeyLength
  spelled : Head.Spelled 3 key.utf8ByteSize head
  item : Item depth value

/-- The octets of an entry. -/
def Entry.octets {depth : Nat} (e : Entry depth) : Octets := e.head ++ Octets.ofText e.key ++ e.value

theorem outcome_readKey_spelled {key : String} {head : Octets} (hk : key.utf8ByteSize ≤ maxKeyLength)
    (hh : Head.Spelled 3 key.utf8ByteSize head) (rest : Octets) :
    outcome (readKey (head ++ (Octets.ofText key ++ rest))) = .ok (Octets.ofText key, rest) := by
  obtain ⟨r, hr, hs⟩ := exists_rest_of_outcome
    (Head.outcome_past_of_read (fun _ => true) (hh.outcome_read rfl (Octets.ofText key ++ rest)) (fun _ h => by cases h))
  obtain ⟨q, hq, hrest⟩ := exists_rest_of_outcome (outcome_take hs (Octets.length_ofText key))
  simp only [readKey, show Head.untagged _ = _ from hr, if_pos hk, hq, Octets.text?_ofText, Option.isSome_some, if_true]
  exact congrArg (fun o => Except.ok (_, o)) hrest

namespace Record

section Entries

variable {depth : Nat} {fields : List Field} {found found' : Found} {e : Entry depth} {es : List (Entry depth)} {f : Field}

/-- What the values found so far become when an entry is read. -/
def enter (fields : List Field) (found : Found) (e : Entry depth) : Except Fault Found :=
  match field? fields (Octets.ofText e.key) with
  | none => .ok found
  | some f =>
    match found.lookup f.name with
    | some _ => .error .malformed
    | none => (f.kind.value e.value).map fun v => (f.name, v) :: found

/-- **Reading an entry takes its octets**, and enters it. -/
theorem steps_readEntry (fields : List Field) (e : Entry depth) :
    Steps (readEntry fields (skipper depth)) (enter fields) Entry.octets e where
  gives found rest := by
    rw [Entry.octets, List.append_assoc, List.append_assoc, readEntry, outcome_andThen,
      outcome_readKey_spelled e.short e.spelled]
    simp only [Except.bind, enter]
    cases field? fields (Octets.ofText e.key) with
    | none => exact (e.item.skipper_gives.map _) rest
    | some f =>
      cases hl : found.lookup f.name with
      | some _ => simp only [hl]; rfl
      | none =>
        simp only [hl]
        exact ((f.kind.read_gives e.item).map _) rest
  noStop rest := by
    rw [Entry.octets, List.append_assoc, List.append_assoc]
    exact ⟨_, Head.isStop_of_read (e.spelled.outcome_read rfl _) (by simp)⟩

/-- What is known of a field once some entries were read: they name it once at most, its value was read and is found if
they do, and none is found if they do not. -/
structure Gathered (es : List (Entry depth)) (found : Found) (f : Field) : Prop where
  single : (es.map Entry.key).count f.name ≤ 1
  read : ∀ e ∈ es, e.key = f.name → ∃ v, f.kind.value e.value = .ok v ∧ found.lookup f.name = some v
  only : found.lookup f.name ≠ none → f.name ∈ es.map Entry.key

/-- An entry of another name changes nothing about a field. -/
theorem Gathered.other (h : Gathered es found f) (hkey : e.key ≠ f.name)
    (hl : found'.lookup f.name = found.lookup f.name) : Gathered (es ++ [e]) found' f where
  single := by
    rw [List.map_append, List.count_append, List.map_singleton, List.count_singleton, beq_false_of_ne hkey]
    exact h.single
  read e' he' hkey' := by
    rcases List.mem_append.1 he' with he' | he'
    · rw [hl]
      exact h.read e' he' hkey'
    · rw [List.mem_singleton.1 he'] at hkey'
      exact absurd hkey' hkey
  only hne := by
    rw [List.map_append]
    exact List.mem_append_left _ (h.only (hl ▸ hne))

/-- The first entry of its name gives a field its value. -/
theorem Gathered.first {v : Scalar} (h : Gathered es found f) (hkey : e.key = f.name) (hl : found.lookup f.name = none)
    (hv : f.kind.value e.value = .ok v) : Gathered (es ++ [e]) ((f.name, v) :: found) f := by
  have hnew : ∀ e' ∈ es, e'.key ≠ f.name := by
    intro e' he' hkey'
    obtain ⟨v', -, hv'⟩ := h.read e' he' hkey'
    rw [hl] at hv'
    cases hv'
  have hnot : f.name ∉ es.map Entry.key := by
    intro hmem
    obtain ⟨e', he', hkey'⟩ := List.mem_map.1 hmem
    exact hnew e' he' hkey'
  refine ⟨?_, fun e' he' hkey' => ?_, fun _ => ?_⟩
  · rw [List.map_append, List.count_append, List.count_eq_zero_of_not_mem hnot, Nat.zero_add]
    exact List.count_le_length
  · rcases List.mem_append.1 he' with he' | he'
    · exact absurd hkey' (hnew e' he')
    · rw [List.mem_singleton.1 he']
      exact ⟨v, hv, List.lookup_cons_self⟩
  · rw [List.map_append, List.map_singleton, hkey]
    exact List.mem_append_right _ List.mem_cons_self

/-- **An entry that is read keeps what is known of each field.** -/
theorem Gathered.enter (hd : (fields.map (·.name)).Nodup) (hf : f ∈ fields) (h : Gathered es found f)
    (he : Record.enter fields found e = .ok found') : Gathered (es ++ [e]) found' f := by
  unfold Record.enter at he
  cases hg : field? fields (Octets.ofText e.key) with
  | none =>
    simp only [hg] at he
    cases he
    refine h.other ?_ rfl
    intro hkey
    rw [hkey, field?_ofText hd hf] at hg
    cases hg
  | some g =>
    have hname := Octets.ofText_inj (of_field? hg).2
    simp only [hg] at he
    cases hl : found.lookup g.name with
    | some _ =>
      simp only [hl] at he
      cases he
    | none =>
      simp only [hl] at he
      cases hv : g.kind.value e.value with
      | error _ =>
        rw [hv] at he
        cases he
      | ok v =>
        rw [hv] at he
        cases he
        by_cases hkey : e.key = f.name
        · rw [hkey, field?_ofText hd hf] at hg
          cases hg
          exact h.first hkey hl hv
        · refine h.other hkey ?_
          rw [List.lookup_cons, beq_false_of_ne fun heq => hkey (heq.trans hname).symm]

/-- What is known of each field once all entries were read. -/
theorem gathered_of_foldlM (hd : (fields.map (·.name)).Nodup) (hf : f ∈ fields)
    (h : es.foldlM (Record.enter fields) [] = .ok found) : Gathered es found f := by
  induction es using List.reverseRecOn generalizing found with
  | nil =>
    cases h
    exact ⟨Nat.zero_le _, fun e he => (by cases he), fun hne => absurd rfl hne⟩
  | append_singleton es e ih =>
    rw [List.foldlM_append] at h
    obtain ⟨found', hes, he⟩ := bind_eq_ok.1 h
    obtain ⟨found'', he, hend⟩ := bind_eq_ok.1 he
    cases hend
    exact (ih hes).enter hd hf he

/-- An entry is read when its name is new and its value can be read. -/
theorem exists_enter_eq_ok (hl : ∀ f ∈ fields, e.key = f.name → found.lookup f.name = none)
    (hread : ∀ f ∈ fields, e.key = f.name → ∃ v, f.kind.value e.value = .ok v) :
    ∃ found', Record.enter fields found e = .ok found' := by
  unfold Record.enter
  cases hg : field? fields (Octets.ofText e.key) with
  | none => exact ⟨_, rfl⟩
  | some g =>
    have hmem := (of_field? hg).1
    have hname := Octets.ofText_inj (of_field? hg).2
    obtain ⟨v, hv⟩ := hread g hmem hname.symm
    simp only [hl g hmem hname.symm, hv]
    exact ⟨_, rfl⟩

/-- Entries are all read when they name each field once at most, each with a value that can be read for it. -/
theorem exists_foldlM_eq_ok (hd : (fields.map (·.name)).Nodup)
    (hsingle : ∀ f ∈ fields, (es.map Entry.key).count f.name ≤ 1)
    (hread : ∀ f ∈ fields, ∀ e ∈ es, e.key = f.name → ∃ v, f.kind.value e.value = .ok v) :
    ∃ found, es.foldlM (Record.enter fields) [] = .ok found := by
  induction es using List.reverseRecOn with
  | nil => exact ⟨_, rfl⟩
  | append_singleton es e ih =>
    have hcount (f : Field) : ((es ++ [e]).map Entry.key).count f.name =
        (es.map Entry.key).count f.name + [e.key].count f.name := by
      rw [List.map_append, List.count_append, List.map_singleton]
    obtain ⟨found, hfound⟩ := ih
      (fun f hf => Nat.le_trans (Nat.le_add_right _ _) (hcount f ▸ hsingle f hf))
      (fun f hf e' he' => hread f hf e' (List.mem_append_left _ he'))
    -- a name that was found before would now be there twice
    have hnew : ∀ f ∈ fields, e.key = f.name → found.lookup f.name = none := by
      intro f hf hkey
      by_contra hne
      have hbefore := List.count_pos_iff.2 ((gathered_of_foldlM hd hf hfound).only hne)
      have htwice := hsingle f hf
      rw [hcount, hkey, List.count_singleton_self] at htwice
      omega
    obtain ⟨found', he⟩ := exists_enter_eq_ok hnew
      (fun f hf => hread f hf e (List.mem_append_right _ List.mem_cons_self))
    refine ⟨found', ?_⟩
    rw [List.foldlM_append, hfound]
    show (Record.enter fields found e >>= pure) = _
    rw [he]
    rfl

end Entries

/-! ## Maps -/

section Maps

variable {α : Type} [Record α] {depth : Nat} {es : List (Entry depth)} {body : Octets}

/-- The record that entries make. -/
def gather (α : Type) [Record α] (es : List (Entry depth)) : Except Fault α :=
  (es.foldlM (enter (fields α)) []).bind fun found =>
    match (inOrder? (fields α) found).bind ofScalars? with
    | none => .error .malformed
    | some a => .ok a

/-- **A record is made of the entries of its map**, counted or open, and takes no more than the map. -/
theorem read_gives (hb : Bracketed 5 es.length (es.flatMap Entry.octets) body) :
    (Record.read (α := α) (depth + 1)).Gives body (gather α es) := by
  intro rest
  obtain ⟨length, s, hread, hitems⟩ :=
    hb.exists_foldItems (fun _ => rfl) (fun e _ => steps_readEntry (fields α) e) rest
  obtain ⟨r, hr, hs⟩ := exists_rest_of_outcome
    (Head.outcome_past_of_read (fun _ => true) hread (fun _ h => by cases h))
  have hfold := hitems r hs []
  simp only [Record.read, show Head.untagged _ = _ from hr, gather]
  cases hfound : es.foldlM (enter (fields α)) [] with
  | error e =>
    rw [hfound] at hfold
    rw [eq_error_of_outcome hfold]
    rfl
  | ok found =>
    rw [hfound] at hfold
    obtain ⟨q, hq, hrest⟩ := exists_rest_of_outcome hfold
    simp only [hq, Except.bind]
    cases (inOrder? (fields α) found).bind (ofScalars? (α := α)) with
    | none => rfl
    | some a => exact congrArg (fun o => Except.ok (a, o)) hrest

/-- Entries that describe a record: each of its fields is named once, with a value that writes the field's scalar. Any
other entries may be among them. -/
structure Describes (a : α) (es : List (Entry depth)) : Prop where
  once : ∀ f ∈ fields α, (es.map Entry.key).count f.name = 1
  spelled : List.Forall₂ (fun f v => ∀ e ∈ es, e.key = f.name → v.Spelled e.value) (fields α) (toScalars a)

variable [LawfulRecord α] {a : α} {f : Field}

/-- The values that describe a record are read for its fields. -/
theorem Describes.values (h : Describes a es) :
    List.Forall₂ (fun f v => ∀ e ∈ es, e.key = f.name → f.kind.value e.value = .ok v) (fields α) (toScalars a) :=
  List.Forall₂.mp (fun _ _ hholds hv e he hkey => FieldKind.value_of_spelled hholds (hv e he hkey))
    (LawfulRecord.holds a) h.spelled

theorem exists_of_forall₂ {β γ : Type} {R : β → γ → Prop} {bs : List β} {cs : List γ} (h : List.Forall₂ R bs cs) {b : β}
    (hb : b ∈ bs) : ∃ c, R b c := by
  induction h with
  | nil => cases hb
  | cons hr _ ih =>
    rcases List.mem_cons.1 hb with rfl | hb
    · exact ⟨_, hr⟩
    · exact ih hb

/-- **Entries that describe a record make it.** -/
theorem gather_eq_ok (h : Describes a es) : gather α es = .ok a := by
  have hd := LawfulRecord.nodup (α := α)
  have hvalues := h.values
  obtain ⟨found, hfound⟩ := exists_foldlM_eq_ok hd (fun f hf => Nat.le_of_eq (h.once f hf)) fun f hf e he hkey => by
    obtain ⟨v, hv⟩ := exists_of_forall₂ hvalues hf
    exact ⟨v, hv e he hkey⟩
  have hin : inOrder? (fields α) found = some (toScalars a) := by
    refine inOrder?_eq_some_iff.2 (((List.forall₂_and_left _ _).2 ⟨fun f hf => hf, hvalues⟩).imp ?_)
    rintro f v ⟨hf, hv⟩
    have hkeys : f.name ∈ es.map Entry.key := List.count_pos_iff.1 (h.once f hf ▸ Nat.one_pos)
    obtain ⟨e, he, hkey⟩ := List.mem_map.1 hkeys
    obtain ⟨v', hv', hl⟩ := (gathered_of_foldlM hd hf hfound).read e he hkey
    rw [hv e he hkey] at hv'
    cases hv'
    exact hl
  simp only [gather, hfound, Except.bind, hin, Option.bind_some, LawfulRecord.ofScalars?_toScalars]

/-- What is known of a field when entries make a record. -/
theorem exists_gathered (h : gather α es = .ok a) (hf : f ∈ fields α) :
    ∃ found, Gathered es found f ∧ found.lookup f.name ≠ none := by
  obtain ⟨found, hfound, h⟩ := bind_eq_ok.1 h
  refine ⟨found, gathered_of_foldlM LawfulRecord.nodup hf hfound, ?_⟩
  cases hin : inOrder? (fields α) found with
  | none =>
    rw [hin] at h
    cases h
  | some vs =>
    obtain ⟨v, hv⟩ := exists_of_forall₂ (inOrder?_eq_some_iff.1 hin) hf
    rw [hv]
    exact Option.some_ne_none v

/-- **Entries make no record when a field is left out, or is there twice.** -/
theorem gather_error_of_count (hf : f ∈ fields α) (hc : (es.map Entry.key).count f.name ≠ 1) :
    ∃ x, gather α es = .error x := by
  cases h : gather α es with
  | error x => exact ⟨x, rfl⟩
  | ok a =>
    obtain ⟨found, hg, hl⟩ := exists_gathered h hf
    have hpos := List.count_pos_iff.2 (hg.only hl)
    have hle := hg.single
    omega

/-- **Entries make no record when the value of a field cannot be read for it.** -/
theorem gather_error_of_value {e : Entry depth} {x : Fault} (hf : f ∈ fields α) (he : e ∈ es) (hkey : e.key = f.name)
    (hv : f.kind.value e.value = .error x) : ∃ x, gather α es = .error x := by
  cases h : gather α es with
  | error x => exact ⟨x, rfl⟩
  | ok a =>
    obtain ⟨found, hg, -⟩ := exists_gathered h hf
    obtain ⟨v, hv', -⟩ := hg.read e he hkey
    rw [hv] at hv'
    cases hv'

/-- Fields are written as entries of their names, with values that write their scalars. -/
theorem exists_entries {todo : List Field} {vs : List Scalar} (hv : List.Forall₂ (fun f v => f.kind.Holds v) todo vs)
    (hshort : ∀ f ∈ todo, f.name.utf8ByteSize ≤ maxKeyLength) (hd : (todo.map (·.name)).Nodup)
    (hl : (List.zipWith writeEntry todo vs).flatten.length < UInt64.size) :
    ∃ es : List (Entry depth), es.map Entry.key = todo.map (·.name) ∧
      es.flatMap Entry.octets = (List.zipWith writeEntry todo vs).flatten ∧
      List.Forall₂ (fun f v => ∀ e ∈ es, e.key = f.name → v.Spelled e.value) todo vs := by
  induction hv with
  | nil => exact ⟨[], rfl, rfl, .nil⟩
  | @cons f v todo vs hfv hv ih =>
    rw [List.map_cons, List.nodup_cons] at hd
    simp only [List.zipWith_cons_cons, List.flatten_cons, List.length_append] at hl ⊢
    obtain ⟨es, hkeys, hoctets, hall⟩ := ih (fun g hg => hshort g (List.mem_cons_of_mem _ hg)) hd.2 (by omega)
    have hspelled : v.Spelled v.write := by
      rw [writeEntry, List.length_append] at hl
      exact Scalar.spelled_write hfv (by omega)
    have hname := hshort f List.mem_cons_self
    let entry : Entry depth :=
      { key := f.name
        head := Head.write 3 f.name.utf8ByteSize
        value := v.write
        short := hname
        spelled := Head.spelled_write 3 (Nat.lt_of_le_of_lt hname (by decide))
        item := hspelled.item depth }
    refine ⟨entry :: es, ?_, ?_, .cons ?_ ?_⟩
    · rw [List.map_cons, List.map_cons, hkeys]
    · rw [List.flatMap_cons, hoctets]
      rfl
    · intro e he hkey
      rcases List.mem_cons.1 he with rfl | he
      · exact hspelled
      · have hmem : e.key ∈ es.map Entry.key := List.mem_map_of_mem he
        rw [hkeys, hkey] at hmem
        exact absurd hmem hd.1
    · refine ((List.forall₂_and_left _ _).2 ⟨fun g hg => hg, hall⟩).imp ?_
      rintro g u ⟨hg, hu⟩ e he hkey
      rcases List.mem_cons.1 he with rfl | he
      · have hmem : g.name ∈ todo.map (·.name) := List.mem_map_of_mem hg
        rw [← hkey] at hmem
        exact absurd hmem hd.1
      · exact hu e he hkey

/-- **What is written for a record is one of the maps that describe it.** -/
theorem exists_describes_write (ha : (write a).length < UInt64.size) :
    ∃ es : List (Entry depth), Describes a es ∧ Bracketed 5 es.length (es.flatMap Entry.octets) (write a) := by
  rw [write, List.length_append] at ha
  obtain ⟨es, hkeys, hoctets, hall⟩ : ∃ es : List (Entry depth), _ :=
    exists_entries (LawfulRecord.holds a) LawfulRecord.short LawfulRecord.nodup (by omega)
  have hlength : es.length = (fields α).length := by
    rw [← List.length_map Entry.key, hkeys, List.length_map]
  refine ⟨es, ⟨fun f hf => ?_, hall⟩, ?_⟩
  · rw [hkeys]
    exact List.count_eq_one_of_mem LawfulRecord.nodup (List.mem_map_of_mem hf)
  · rw [write, hoctets, hlength]
    exact .counted (Head.spelled_write 5 (Nat.lt_trans LawfulRecord.few (by decide)))

end Maps

end Record

end CoinRelay.Wire
