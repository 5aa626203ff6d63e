import CoinRelay.Proofs.Wire.Gathering

/-!
# Messages are read however the maps of their records are written

The body of most messages is one record (`Message.Carries`). `Message.decode_map` says what such a body gives for every
way to write the map of the record, and when it is refused. `requestBody` is a request in such a way.
-/

namespace CoinRelay.Wire

open Cbor

namespace Message

open Record

/-- The opcodes whose bodies are one record, and the messages of these records. -/
inductive Carries : Opcode → (α : Type) → Record α → (α → Message) → Prop
  | fetch : Carries .fetch FetchRequest inferInstance fetch
  | send : Carries .send Packet inferInstance send
  | drain : Carries .drain UserRequest inferInstance drain
  | count : Carries .count UserRequest inferInstance count
  | publishAck : Carries .publishAck PublishAck inferInstance publishAck
  | coinGranted : Carries .coinGranted Coin inferInstance coinGranted
  | counts : Carries .counts Tier.Counts inferInstance counts
  | error : Carries .error Refusal inferInstance error

section Bodies

theorem front_of_gives {α : Type} {read : Reader α} {w : Octets} {x : Except Fault α} (h : read.Gives w x) (more : Octets) :
    front read (w ++ more) = x.mapError fun fault => .decodeFailed fault.message := by
  have hread := h more
  cases x with
  | ok a =>
    obtain ⟨q, hq, -⟩ := exists_rest_of_outcome hread
    simp only [front, hq]
    rfl
  | error e =>
    rw [front, eq_error_of_outcome hread]
    rfl

variable {α : Type} [inst : Record α] {o : Opcode} {make : α → Message}

theorem Carries.lawful (h : Carries o α inst make) : LawfulRecord α := by
  cases h <;> infer_instance

theorem Carries.ofBody_eq (h : Carries o α inst make) (body : Octets) :
    ofBody o body = (front (Record.read (α := α) nestingLimit) body).map make := by
  cases h <;> rfl

/-- The body is refused as one that holds no such record. -/
def Refused (o : Opcode) (body : Octets) : Prop := ∃ reason, decode o body = .error (.decodeFailed reason)

theorem decode_of_gather (h : Carries o α inst make) {es : List (Entry (nestingLimit - 1))} {body more : Octets}
    (hb : Bracketed 5 es.length (es.flatMap Entry.octets) body) (hsize : (body ++ more).length ≤ maxPayload) :
    decode o (body ++ more) = ((gather α es).mapError fun fault => .decodeFailed fault.message).map make := by
  rw [decode, if_neg (Nat.not_lt.2 hsize), h.ofBody_eq]
  exact congrArg (Except.map make) (front_of_gives (read_gives hb) more)

/-- **Records are read however their maps are written.** A body within the limit may be the map of a record with its
fields in any order, among any entries whose keys name no field and whose values are well-formed and nest no deeper than
the limit, counted or open, with heads of any width, and anything may come behind it: it gives the record. It is refused
when a field is left out or is there twice, and when a field for a tier holds any other integer than the three codes. -/
theorem decode_map (h : Carries o α inst make) {es : List (Entry (nestingLimit - 1))} {body more : Octets}
    (hb : Bracketed 5 es.length (es.flatMap Entry.octets) body) (hsize : (body ++ more).length ≤ maxPayload) :
    (∀ a : α, Describes a es → decode o (body ++ more) = .ok (make a)) ∧
    (∀ f ∈ fields α, (es.map Entry.key).count f.name ≠ 1 → Refused o (body ++ more)) ∧
    (∀ f ∈ fields α, f.kind = .tier → ∀ e ∈ es, e.key = f.name →
      ∀ i : Int, Integer i e.value → (i < 0 ∨ 2 < i) → Refused o (body ++ more)) := by
  have := h.lawful
  have hrefused : (∃ x, gather α es = .error x) → Refused o (body ++ more) := by
    rintro ⟨x, hx⟩
    exact ⟨x.message, by rw [decode_of_gather h hb hsize, hx]; rfl⟩
  refine ⟨fun a ha => ?_, fun f hf hc => hrefused (gather_error_of_count hf hc), ?_⟩
  · rw [decode_of_gather h hb hsize, gather_eq_ok ha]
    rfl
  · intro f hf hkind e he hkey i hi hrange
    obtain ⟨x, hx⟩ := FieldKind.value_tier_error hi hrange
    exact hrefused (gather_error_of_value hf he hkey (hkind ▸ hx))

/-- The code of a tier in an octet of its own. -/
theorem integer_code (code : UInt8) : Integer (.ofNat code.toNat) [0x18, code] := by
  have hlong : [0x18, code] = UInt8.ofNat (0 * 32 + (24 + 0)) :: Octets.bigEndian (1 <<< 0) code.toNat := by
    simp [Octets.bigEndian]
  rw [hlong]
  exact .natural (.long (by decide) code.toNat_lt)

/-- The name of a user in two chunks. -/
theorem chunked_name : Chunked .text (["bo", "b"].map Octets.ofText) [0x7F, 0x62, 0x62, 0x6F, 0x61, 0x62, 0xFF] :=
  .opened (.whole (h := [0x62]) (.short (by decide)) (.whole (h := [0x61]) (.short (by decide)) .nil))

/-- A code behind a key whose head is wider than needed. -/
def codeEntry (code : UInt8) : Entry (nestingLimit - 1) where
  key := "coin"
  head := [0x78, 4]
  value := [0x18, code]
  short := by decide
  spelled := .long (k := 0) (by decide) (by decide)
  item := (Scalar.Spelled.number (integer_code code)).item _

def nameEntry : Entry (nestingLimit - 1) where
  key := "user"
  head := [0x64]
  value := [0x7F, 0x62, 0x62, 0x6F, 0x61, 0x62, 0xFF]
  short := by decide
  spelled := .short (by decide)
  item := (Scalar.Spelled.text chunked_name).item _

/-- A key that names no field, with an open list of a big number and a map from minus one to null. -/
def strangeEntry : Entry (nestingLimit - 1) where
  key := "x"
  head := [0x61]
  value := [0x9F, 0xC2, 0x41, 5, 0xA1, 0x20, 0xF6, 0xFF]
  short := by decide
  spelled := .short (by decide)
  item := by
    refine @Item.list 254 [[0xC2, 0x41, 5], [0xA1, 0x20, 0xF6]] _ ?_ .opened
    intro v hv
    simp only [List.mem_cons, List.not_mem_nil, or_false] at hv
    rcases hv with rfl | rfl
    · exact .integer (.bigNatural (t := [0xC2]) (h := [0x41]) (o := [5]) (.short (by decide)) (.short (by decide)) (by decide))
    · refine @Item.map 253 [([0x20], [0xF6])] _ ?_ ?_ (.counted (h := [0xA1]) (.short (by decide)))
      · intro p hp
        rw [List.mem_singleton.1 hp]
        exact .integer (.negative (n := 0) (.short (by decide)))
      · intro p hp
        rw [List.mem_singleton.1 hp]
        exact .simple (n := 22) (.short (by decide)) (by decide)

/-- The fields of a request in the wrong order, and an entry between them that is none. -/
def requestEntries : List (Entry (nestingLimit - 1)) := [codeEntry 1, strangeEntry, nameEntry]

/-- The open map of `requestEntries`. -/
def requestBody : Octets :=
  [0xBF, 0x78, 4, 0x63, 0x6F, 0x69, 0x6E, 0x18, 1, 0x61, 0x78, 0x9F, 0xC2, 0x41, 5, 0xA1, 0x20, 0xF6, 0xFF,
    0x64, 0x75, 0x73, 0x65, 0x72, 0x7F, 0x62, 0x62, 0x6F, 0x61, 0x62, 0xFF, 0xFF]

theorem describes_request : Describes (FetchRequest.mk "bob" .silver) requestEntries where
  once := by decide
  spelled := by
    refine .cons (fun e he hkey => ?_) (.cons (fun e he hkey => ?_) .nil)
    · simp only [requestEntries, List.mem_cons, List.not_mem_nil, or_false] at he
      rcases he with rfl | rfl | rfl
      · simp [codeEntry] at hkey
      · simp [strangeEntry] at hkey
      · exact .text chunked_name
    · simp only [requestEntries, List.mem_cons, List.not_mem_nil, or_false] at he
      rcases he with rfl | rfl | rfl
      · exact .tier (integer_code 1)
      · simp [strangeEntry] at hkey
      · simp [nameEntry] at hkey

/-- A request is read from an open map, with an octet behind it; it is not without the user, nor with the code three. -/
theorem decode_map_request :
    decode .fetch (requestBody ++ [0]) = .ok (.fetch ⟨"bob", .silver⟩) ∧
    Refused .fetch ([0xA1, 0x78, 4, 0x63, 0x6F, 0x69, 0x6E, 0x18, 1] ++ [0]) ∧
    Refused .fetch ([0xB8, 1, 0x78, 4, 0x63, 0x6F, 0x69, 0x6E, 0x18, 3] ++ [0]) := by
  have hopen : Bracketed 5 requestEntries.length (requestEntries.flatMap Entry.octets) requestBody := .opened
  have hnameless : Bracketed 5 [codeEntry 1].length ([codeEntry 1].flatMap Entry.octets)
      [0xA1, 0x78, 4, 0x63, 0x6F, 0x69, 0x6E, 0x18, 1] := .counted (h := [0xA1]) (.short (by decide))
  have hcode : Bracketed 5 [codeEntry 3].length ([codeEntry 3].flatMap Entry.octets)
      [0xB8, 1, 0x78, 4, 0x63, 0x6F, 0x69, 0x6E, 0x18, 3] := .counted (h := [0xB8, 1]) (.long (k := 0) (by decide) (by decide))
  have hread := decode_map .fetch hopen (show (requestBody ++ [0]).length ≤ maxPayload by decide)
  refine ⟨hread.1 _ describes_request, ?_, ?_⟩
  · exact (decode_map .fetch hnameless (by decide)).2.1 ⟨"user", .text⟩ (by decide) (by decide)
  · exact (decode_map .fetch hcode (by decide)).2.2 ⟨"coin", .tier⟩ (by decide) rfl (codeEntry 3)
      List.mem_cons_self rfl 3 (integer_code 3) (by decide)

end Bodies

end Message

end CoinRelay.Wire
