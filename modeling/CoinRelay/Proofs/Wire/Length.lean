import CoinRelay.Proofs.Cbor.Length
import CoinRelay.Proofs.Wire.RoundTrip

/-!
# Records that were read, written again

A record is written no longer than it came, but for the numbers in it: each may have come as a big number and grow by
two octets (`FieldKind.slack`).

- `FieldKind.length_read_le`: one value;
- `Record.length_readEntry`: one entry of a map, entered under the name of its field or skipped;
- `Record.length_read_le`: a record; `length_readList_le`: the records of a list, whose head they do not take along;
- `Message.length_coin_le_of_decode`, `Message.size_packet_le_of_decode`: what bodies bring.
-/

namespace CoinRelay.Wire

open Cbor

/-! ## Values -/

/-- By how many octets a value of the kind may grow when it is written again. -/
def FieldKind.slack : FieldKind → Nat
  | number _ => 2
  | text | tier => 0

theorem length_write_tier (t : Tier) : (Scalar.tier t).write.length = 1 := by
  cases t <;> rfl

theorem FieldKind.length_read_le {kind : FieldKind} {v : Scalar} {s rest : Octets} (hs : s.length < UInt32.size)
    (h : outcome (kind.read s) = .ok (v, rest)) : v.write.length + rest.length ≤ s.length + kind.slack := by
  obtain ⟨hr, h⟩ := exists_of_outcome h
  unfold FieldKind.read Reader.map at h
  cases kind with
  | text =>
    simp only at h
    split at h
    · cases h
    next ht =>
      cases h
      exact length_readText_le hs (outcome_of_eq_ok ht)
  | number bits =>
    simp only [readNumber] at h
    split at h
    · cases h
    next hn =>
      cases h
      split at hn
      · cases hn
      next hnat =>
        split at hn
        · cases hn
          exact length_readNatural_le hs (outcome_of_eq_ok hnat)
        · cases hn
  | tier =>
    simp only at h
    split at h
    · cases h
    · cases h
      rw [length_write_tier]
      exact Nat.le_trans (Nat.le_of_eq (Nat.add_comm ..)) hr

/-! ## Entries -/

namespace Record

/-- An entry is skipped, or it names a field that no entry named before. -/
theorem length_readEntry {fields : List Field} {skip : Reader Unit} {found found' : Found} {s rest : Octets}
    (hs : s.length < UInt32.size) (h : outcome (readEntry fields skip found s) = .ok (found', rest)) :
    found' = found ∨ ∃ f ∈ fields, ∃ v, found.lookup f.name = none ∧ found' = (f.name, v) :: found ∧
      (writeEntry f v).length + rest.length ≤ s.length + f.kind.slack := by
  rw [readEntry, outcome_andThen, bind_eq_ok] at h
  obtain ⟨⟨key, q⟩, hkey, h⟩ := h
  cases hf : field? fields key with
  | none =>
    simp only [hf, outcome_map] at h
    cases hskip : outcome (skip q) with
    | error e => rw [hskip] at h; cases h
    | ok y =>
      rw [hskip] at h
      cases h
      exact .inl rfl
  | some f =>
    obtain ⟨hmem, rfl⟩ := of_field? hf
    cases hl : found.lookup f.name with
    | some v => simp only [hf, hl] at h; cases h
    | none =>
      simp only [hf, hl, outcome_map] at h
      cases hv : outcome (f.kind.read q) with
      | error e => rw [hv] at h; cases h
      | ok y =>
        rw [hv] at h
        cases h
        have hlt : q.length < s.length := (exists_of_outcome hkey).1
        have hk := length_readKey_le hkey
        have hle := FieldKind.length_read_le (Nat.lt_trans hlt hs) hv
        rw [Octets.length_ofText] at hk
        refine .inr ⟨f, hmem, y.1, hl, rfl, ?_⟩
        rw [writeEntry, List.length_append, length_writeText]
        omega

/-- What an entry of a field takes at least of the octets it is read from. -/
def entrySize (found : Found) (f : Field) : Nat :=
  (found.lookup f.name).elim 0 fun v => (writeEntry f v).length - f.kind.slack

/-- What the entries found take at least of the octets they are read from. -/
def foundSize (fields : List Field) (found : Found) : Nat := (fields.map (entrySize found)).sum

theorem foundSize_nil (fields : List Field) : foundSize fields [] = 0 := by
  induction fields with
  | nil => rfl
  | cons f fields ih =>
    show 0 + foundSize fields [] = 0
    rw [ih]

theorem entrySize_cons_of_ne {f : Field} {n : String} (hn : f.name ≠ n) (v : Scalar) (found : Found) :
    entrySize ((n, v) :: found) f = entrySize found f := by
  rw [entrySize, List.lookup_cons, beq_false_of_ne hn]
  rfl

theorem entrySize_cons_self (f : Field) (v : Scalar) (found : Found) :
    entrySize ((f.name, v) :: found) f = (writeEntry f v).length - f.kind.slack := by
  rw [entrySize, List.lookup_cons, beq_self_eq_true]
  rfl

theorem foundSize_cons_of_not_mem {fields : List Field} {n : String} (hn : n ∉ fields.map (·.name)) (v : Scalar)
    (found : Found) : foundSize fields ((n, v) :: found) = foundSize fields found := by
  unfold foundSize
  congr 1
  refine List.map_congr_left fun f hf => entrySize_cons_of_ne ?_ v found
  rintro rfl
  exact hn (List.mem_map_of_mem hf)

/-- A new entry adds its own octets. -/
theorem foundSize_cons {fields : List Field} (hd : (fields.map (·.name)).Nodup) {f : Field} (hf : f ∈ fields)
    {found : Found} (hl : found.lookup f.name = none) (v : Scalar) :
    foundSize fields ((f.name, v) :: found) =
      foundSize fields found + ((writeEntry f v).length - f.kind.slack) := by
  induction fields with
  | nil => cases hf
  | cons g fields ih =>
    rw [List.map_cons, List.nodup_cons] at hd
    have hcons (found : Found) : foundSize (g :: fields) found = entrySize found g + foundSize fields found := rfl
    rw [hcons, hcons]
    rcases List.mem_cons.1 hf with rfl | hf
    · have hnone : entrySize found f = 0 := by rw [entrySize, hl]; rfl
      rw [entrySize_cons_self, hnone, foundSize_cons_of_not_mem hd.1]
      omega
    · have hne : g.name ≠ f.name := fun h => hd.1 (h ▸ List.mem_map_of_mem hf)
      rw [entrySize_cons_of_ne hne, ih hd.2 hf]
      omega

/-- By how many octets the entries of fields may grow when they are written again. -/
def slackOf (fields : List Field) : Nat := (fields.map (·.kind.slack)).sum

/-- All the entries, written in the order of the fields. -/
theorem length_entries_le {fields : List Field} {vs : List Scalar} {found : Found}
    (h : List.Forall₂ (fun f v => found.lookup f.name = some v) fields vs) :
    (List.zipWith writeEntry fields vs).flatten.length ≤ foundSize fields found + slackOf fields := by
  induction h with
  | nil => exact Nat.zero_le _
  | @cons f v fields vs hv _ ih =>
    have h₁ : foundSize (f :: fields) found = entrySize found f + foundSize fields found := rfl
    have h₂ : slackOf (f :: fields) = f.kind.slack + slackOf fields := rfl
    have h₃ : entrySize found f = (writeEntry f v).length - f.kind.slack := by rw [entrySize, hv]; rfl
    rw [List.zipWith_cons_cons, List.flatten_cons, List.length_append, h₁, h₂, h₃]
    omega

variable {α : Type} [Record α]

theorem length_write (a : α) :
    (write a).length =
      Head.size (fields α).length + (List.zipWith writeEntry (fields α) (toScalars a)).flatten.length := by
  rw [write, List.length_append, Head.length_write]

/-- Entries are no longer than those of longer values. -/
theorem length_flatten_zipWith_le (fields : List Field) {ws vs : List Scalar}
    (h : List.Forall₂ (fun w v => w.write.length ≤ v.write.length) ws vs) :
    (List.zipWith writeEntry fields ws).flatten.length ≤ (List.zipWith writeEntry fields vs).flatten.length := by
  induction h generalizing fields with
  | nil => exact Nat.le_refl _
  | @cons w v ws vs hwv _ ih =>
    cases fields with
    | nil => exact Nat.le_refl _
    | cons f fields =>
      have := ih fields
      simp only [List.zipWith_cons_cons, List.flatten_cons, List.length_append, writeEntry]
      omega

variable [LawfulRecord α]

/-- Records that are written no longer than the values they are made of. -/
class Compact (α : Type) [Record α] : Prop where
  length_toScalars_le : ∀ {vs : List Scalar} {a : α}, ofScalars? vs = some a →
    List.Forall₂ (fun w v => w.write.length ≤ v.write.length) (toScalars a) vs

/-- **Records grow by the slack of their fields at most.** -/
theorem length_read_le [Compact α] {depth : Nat} {a : α} {s rest : Octets} (hs : s.length < UInt32.size)
    (h : outcome (read depth s) = .ok (a, rest)) :
    (write a).length + rest.length ≤ s.length + slackOf (fields α) := by
  obtain ⟨_, h⟩ := exists_of_outcome h
  unfold read at h
  split at h
  · cases h
  · next length r hhead =>
    have hle : length.elim 1 Head.size + r.1.length ≤ s.length := Head.least_le_of_past (outcome_of_eq_ok hhead)
    split at h
    · cases h
    split at h
    · cases h
    next found q hitems =>
    split at h
    · cases h
    next ha =>
    cases h
    obtain ⟨vs, hvs, ha⟩ := Option.bind_eq_some_iff.1 ha
    -- what was found so far and what is left fit into what the map was read from
    have hfound : foundSize (fields α) found + rest.length ≤ r.1.length := by
      refine foldItems_invariant (I := fun found rest => foundSize (fields α) found + rest.length ≤ r.1.length)
        ?_ ?_ (Nat.le_of_eq ?_) (outcome_of_eq_ok hitems)
      · intro found s' found' rest' hI hentry
        have hlt := (exists_of_outcome hentry).1
        rcases length_readEntry (by omega) hentry with rfl | ⟨f, hf, v, hl, rfl, hle⟩
        · omega
        · rw [foundSize_cons LawfulRecord.nodup hf hl]
          omega
      · intro found s' rest' hI hlt
        omega
      · rw [foundSize_nil, Nat.zero_add]
    have hentries := length_entries_le (inOrder?_eq_some_iff.1 hvs)
    have hwritten := length_flatten_zipWith_le (fields α) (Compact.length_toScalars_le ha)
    have hsize : Head.size (fields α).length = 1 := if_pos LawfulRecord.few
    have hopen : 1 ≤ length.elim 1 Head.size := by
      cases length with
      | none => exact Nat.le_refl 1
      | some n => exact Head.size_pos n
    rw [length_write]
    omega
  · cases h

end Record

/-! ## Lists of records -/

/-- **The records of a list grow by the slack of their fields at most**, and the head of the list is theirs to fill. -/
theorem length_readList_le {α : Type} [Record α] [LawfulRecord α] [Record.Compact α] {depth : Nat} {as : List α}
    {s rest : Octets} (hs : s.length < UInt32.size) (h : outcome (readList depth s) = .ok (as, rest)) :
    as.length ≤ s.length ∧ ∀ a ∈ as, (Record.write a).length < s.length + Record.slackOf (Record.fields α) := by
  obtain ⟨_, h⟩ := exists_of_outcome h
  unfold readList at h
  split at h
  · cases h
  · next length r hhead =>
    have hr := r.2
    split at h
    · cases h
    split at h
    · cases h
    next found q hitems =>
    cases h
    have hall : found.length + rest.length ≤ r.1.length ∧
        ∀ a ∈ found, (Record.write a).length ≤ r.1.length + Record.slackOf (Record.fields α) := by
      refine foldItems_invariant (I := fun found rest => found.length + rest.length ≤ r.1.length ∧
        ∀ a ∈ found, (Record.write a).length ≤ r.1.length + Record.slackOf (Record.fields α)) ?_ ?_
        ⟨Nat.le_of_eq (Nat.zero_add _), fun _ h => by cases h⟩ (outcome_of_eq_ok hitems)
      · rintro found s' found' rest' ⟨hlen, hI⟩ hread
        have hlt := (exists_of_outcome hread).1
        rw [outcome_map] at hread
        cases ha : outcome (Record.read (α := α) _ s') with
        | error e => rw [ha] at hread; cases hread
        | ok y =>
          rw [ha] at hread
          cases hread
          have hle := Record.length_read_le (by omega) ha
          refine ⟨by rw [List.length_cons]; omega, ?_⟩
          intro a hmem
          rcases List.mem_cons.1 hmem with rfl | hmem
          · omega
          · exact hI a hmem
      · rintro found s' rest' ⟨hlen, hI⟩ hlt
        exact ⟨by omega, hI⟩
    refine ⟨by rw [List.length_reverse]; omega, ?_⟩
    intro a ha
    have := hall.2 a (List.mem_reverse.1 ha)
    omega
  · split at h
    · cases h
    split at h
    · cases h
      exact ⟨Nat.zero_le _, fun _ h => by cases h⟩
    · cases h
  · cases h

/-! ## Coins and packets -/

theorem length_write_number_le (n : Nat) :
    (Scalar.number (UInt64.ofNat n).toNat).write.length ≤ (Scalar.number n).write.length := by
  simp only [Scalar.write, writeNatural, Head.length_write]
  exact Head.size_mono (by rw [UInt64.toNat_ofNat']; exact Nat.mod_le _ _)

instance : Record.Compact Coin where
  length_toScalars_le {vs a} h := by
    simp only [Record.ofScalars?] at h
    split at h
    · cases h
      exact .cons (Nat.le_refl _) (.cons (length_write_number_le _)
        (.cons (Nat.le_refl _) (.cons (Nat.le_refl _) (.cons (Nat.le_refl _) .nil))))
    · cases h

instance : Record.Compact Packet where
  length_toScalars_le {vs a} h := by
    simp only [Record.ofScalars?] at h
    split at h
    · cases h
      exact .cons (Nat.le_refl _) (.cons (length_write_number_le _) (.cons (Nat.le_refl _)
        (.cons (Nat.le_refl _) (.cons (Nat.le_refl _) (.cons (Nat.le_refl _) .nil)))))
    · cases h

/-! ## The bound is reached -/

/-- The octets of an identifier that come as a big number of five octets. -/
def bigWidth : Nat := 5

/-- The map of a coin, its identifier as a big number. -/
def bigMap (c : Coin) : Octets :=
  Head.write 5 5 ++ (Record.writeEntry ⟨"user", .text⟩ (.text c.owner) ++
    ((writeText "kid" ++ writeBig bigWidth c.keyId.word.toNat) ++ (Record.writeEntry ⟨"coin", .tier⟩ (.tier c.tier) ++
      (Record.writeEntry ⟨"pk", .text⟩ (.text c.publicKey) ++ Record.writeEntry ⟨"sig", .text⟩ (.text c.signature)))))

theorem length_writeBig (n : Nat) : (writeBig bigWidth n).length = 7 := by
  rw [writeBig, List.length_append, List.length_append, Head.length_write, Head.length_write, Octets.length_bigEndian]
  rfl

/-- **An identifier beyond 32 bits that comes as a big number makes a coin grow by two octets.** -/
theorem length_write_eq_bigMap_add_two {c : Coin} (hc : UInt32.size ≤ c.keyId.word.toNat) :
    (Record.write c).length = (bigMap c).length + 2 := by
  have hkid : (writeNatural c.keyId.word.toNat).length = 9 := by
    rw [writeNatural, Head.length_write]
    have h₁ : UInt8.size = 256 := rfl
    have h₂ : UInt16.size = 65536 := rfl
    have h₃ : UInt32.size = 4294967296 := rfl
    unfold Head.size
    repeat' split
    all_goals omega
  have hentry : (Record.writeEntry ⟨"kid", .number 64⟩ (.number c.keyId.word.toNat)).length =
      (writeText "kid").length + 9 := by
    rw [Record.writeEntry, List.length_append, Scalar.write, hkid]
  have hhead : (Head.write 5 5).length = 1 := rfl
  have hfive : Head.size (Record.fields Coin).length = 1 := rfl
  rw [Record.length_write, hfive, bigMap]
  simp only [Record.fields, Record.toScalars, List.zipWith_cons_cons, List.zipWith_nil_left, List.flatten_cons,
    List.flatten_nil, List.length_append, List.length_nil, length_writeBig, hhead, hentry]
  omega

/-- The values of a coin, the last one read first. -/
def foundOf (c : Coin) : Record.Found :=
  [("sig", .text c.signature), ("pk", .text c.publicKey), ("coin", .tier c.tier),
    ("kid", .number c.keyId.word.toNat), ("user", .text c.owner)]

/-- **Such a map is read.** -/
theorem outcome_read_bigMap {c : Coin} (hc : c.keyId.word.toNat < 256 ^ bigWidth)
    (hl : (bigMap c).length < UInt64.size) (depth : Nat) (rest : Octets) :
    outcome (Record.read (depth + 1) (bigMap c ++ rest)) = .ok (c, rest) := by
  have hentry (f : Field) (v : Scalar) (found : Record.Found) (rest : Octets) (hf : f ∈ Record.fields Coin)
      (hv : f.kind.Holds v) (hw : (Record.writeEntry f v).length < UInt64.size) (hnone : found.lookup f.name = none) :=
    Record.outcome_readEntry (skipper depth) (Record.field?_ofText LawfulRecord.nodup hf)
      (LawfulRecord.short f hf) hnone hv
      (Nat.lt_of_le_of_lt (by rw [Record.writeEntry, List.length_append]; omega) hw) rest
  have hkid (rest : Octets) : outcome ((FieldKind.number 64).read (writeBig bigWidth c.keyId.word.toNat ++ rest)) =
      .ok (.number c.keyId.word.toNat, rest) := by
    obtain ⟨hq, h⟩ := exists_of_outcome (outcome_readNatural_writeBig (by decide) hc rest)
    rw [FieldKind.read, outcome_map]
    simp only [readNumber, h, if_pos (show c.keyId.word.toNat < 1 <<< 64 from c.keyId.word.toNat_lt)]
    rfl
  have hmap : bigMap c ++ rest = Head.write 5 5 ++ (Record.writeEntry ⟨"user", .text⟩ (.text c.owner) ++
      (writeText "kid" ++ (writeBig bigWidth c.keyId.word.toNat ++ (Record.writeEntry ⟨"coin", .tier⟩ (.tier c.tier) ++
        (Record.writeEntry ⟨"pk", .text⟩ (.text c.publicKey) ++
          (Record.writeEntry ⟨"sig", .text⟩ (.text c.signature) ++ rest)))))) := by
    simp only [bigMap, List.append_assoc]
  simp only [bigMap, List.length_append] at hl
  rw [hmap]
  refine Record.outcome_read_of (foundOf c)
    (Head.outcome_untagged_write 5 (n := 5) rfl (fun _ h => by cases h) (by decide) _) (fun r hr => ?_) ?_
  · rw [outcome_foldItems_some, hr]
    refine (outcome_foldCount_cons (hentry ⟨"user", .text⟩ (.text c.owner) [] _ (by decide) trivial
      (by omega) rfl)).trans ?_
    refine (outcome_foldCount_cons (Record.outcome_readEntry_of (f := ⟨"kid", .number 64⟩) (outcome_readKey_write
      (by decide) _) (Record.field?_ofText LawfulRecord.nodup (by decide)) (by rfl) (hkid _))).trans ?_
    refine (outcome_foldCount_cons (hentry ⟨"coin", .tier⟩ (.tier c.tier) ((foundOf c).drop 3) _ (by decide) trivial
      (by omega) rfl)).trans ?_
    refine (outcome_foldCount_cons (hentry ⟨"pk", .text⟩ (.text c.publicKey) ((foundOf c).drop 2) _ (by decide) trivial
      (by omega) rfl)).trans ?_
    exact outcome_foldCount_cons (hentry ⟨"sig", .text⟩ (.text c.signature) ((foundOf c).drop 1) rest (by decide)
      trivial (by omega) rfl)
  · have hall : List.Forall₂ (fun f v => (foundOf c).lookup f.name = some v) (Record.fields Coin) (Record.toScalars c) :=
      .cons rfl (.cons rfl (.cons rfl (.cons rfl (.cons rfl .nil))))
    rw [Record.inOrder?_eq_some_iff.2 hall, Option.bind_some, LawfulRecord.ofScalars?_toScalars]

namespace Message

theorem exists_outcome_of_front {α : Type} {read : Reader α} {body : Octets} {a : α}
    (h : front read body = .ok a) : ∃ rest, outcome (read body) = .ok (a, rest) := by
  unfold front at h
  split at h
  · next r hread =>
    cases h
    exact ⟨r.1, outcome_of_eq_ok hread⟩
  · cases h

theorem map_eq_ok {ε α β : Type} {x : Except ε α} {f : α → β} {b : β} (h : x.map f = .ok b) :
    ∃ a, x = .ok a ∧ f a = b := by
  cases x with
  | error e => cases h
  | ok a =>
    cases h
    exact ⟨a, rfl, rfl⟩

/-- A body that is read is within the limit. -/
theorem length_le_of_decode {o : Opcode} {body : Octets} {m : Message} (h : decode o body = .ok m) :
    body.length ≤ maxPayload ∧ ofBody o body = .ok m := by
  unfold decode at h
  split at h
  · cases h
  · next hbody => exact ⟨Nat.not_lt.1 hbody, h⟩

theorem front_of_publish {o : Opcode} {body : Octets} {coins : List Coin}
    (h : ofBody o body = .ok (.publish coins)) : front (readList nestingLimit) body = .ok coins := by
  cases o with
  | notFound | sendAck => cases h
  | publish =>
    obtain ⟨_, hf, hm⟩ := map_eq_ok h
    cases hm
    exact hf
  | _ =>
    obtain ⟨_, _, hm⟩ := map_eq_ok h
    cases hm

theorem front_of_send {o : Opcode} {body : Octets} {packet : Packet}
    (h : ofBody o body = .ok (.send packet)) : front (Record.read nestingLimit) body = .ok packet := by
  cases o with
  | notFound | sendAck => cases h
  | send =>
    obtain ⟨_, hf, hm⟩ := map_eq_ok h
    cases hm
    exact hf
  | _ =>
    obtain ⟨_, _, hm⟩ := map_eq_ok h
    cases hm

/-- **A coin may be one octet longer than the body that it came in**, and no more. -/
theorem length_coin_le_of_decode {o : Opcode} {body : Octets} {coins : List Coin}
    (h : decode o body = .ok (.publish coins)) :
    coins.length ≤ body.length ∧ ∀ coin ∈ coins, (Record.write coin).length ≤ body.length + 1 := by
  obtain ⟨hbody, h⟩ := length_le_of_decode h
  obtain ⟨_, hread⟩ := exists_outcome_of_front (front_of_publish h)
  obtain ⟨hlen, hcoins⟩ := length_readList_le (Nat.lt_of_le_of_lt hbody (by decide)) hread
  have hslack : Record.slackOf (Record.fields Coin) = 2 := rfl
  refine ⟨hlen, ?_⟩
  intro coin hcoin
  have := hcoins coin hcoin
  omega

theorem size_packet_le_of_decode {o : Opcode} {body : Octets} {packet : Packet}
    (h : decode o body = .ok (.send packet)) : packet.size ≤ body.length + 2 := by
  obtain ⟨hbody, h⟩ := length_le_of_decode h
  obtain ⟨_, hread⟩ := exists_outcome_of_front (front_of_send h)
  have hle := Record.length_read_le (Nat.lt_of_le_of_lt hbody (by decide)) hread
  have hslack : Record.slackOf (Record.fields Packet) = 2 := rfl
  rw [Packet.size]
  omega

/-- The body of a batch of one coin, its identifier as a big number. -/
def bigBody (c : Coin) : Octets := Head.write 4 1 ++ bigMap c

/-- **A body of the full length may bring a coin that is longer than itself.** -/
theorem decode_bigBody {c : Coin} (hc : c.keyId.word.toNat < 256 ^ bigWidth) (hl : (bigBody c).length ≤ maxPayload) :
    decode .publish (bigBody c) = .ok (.publish [c]) := by
  have hword : maxPayload < UInt64.size := by decide
  have hmap : (bigMap c).length < UInt64.size := by
    rw [bigBody, List.length_append] at hl
    omega
  have hread : outcome ((Record.read (α := Coin) 255).map (· :: []) (bigMap c)) = .ok ([c], []) := by
    have := outcome_read_bigMap hc hmap 254 []
    rw [List.append_nil] at this
    rw [outcome_map, this]
    rfl
  have hlist : outcome (readList (255 + 1) (bigBody c)) = .ok ([c], []) :=
    outcome_readList_of (Head.outcome_untagged_write 4 (n := 1) rfl (fun _ h => by cases h) (by decide)
      (bigMap c)) fun r hr => by rw [outcome_foldItems_some, hr, outcome_foldCount_cons hread]; rfl
  rw [decode, if_neg (Nat.not_lt.2 hl)]
  exact congrArg (Except.map publish) (front_eq_ok hlist)

end Message

end CoinRelay.Wire
