import CoinRelay.Proofs.Wire.Fault
import CoinRelay.Proofs.Wire.RoundTrip

/-!
# Frames and octets match

`Frame.encode` and `Frame.decode` agree in both directions, on all octets and on all frames.

- `Header.parse_eq_ok_iff`: octets have a header exactly where they start with the octets of it;
- `Frame.decode_eq_ok_iff`: octets have a frame exactly where they announce one (`Frame.Announces`) and start with it;
- `Frame.decode_cut`: what is said about a frame that was cut off anywhere (`Frame.cut`);
- `Frame.codec`: the whole.
-/

namespace CoinRelay.Wire

/-! ## Headers -/

namespace Header

theorem parse_of_short {o : Octets} (h : o.length < headerSize) : parse o = .error (.frameTooShort headerSize o.length) := by
  unfold parse
  split
  · simp only [List.length_cons, headerSize] at h
    omega
  · rfl

/-- **Octets have a header exactly where they start with the octets of it**, unless it announces too much. -/
theorem parse_eq_ok_iff {o : Octets} {h : Header} :
    parse o = .ok h ↔ h.toOctets <+: o ∧ h.payloadSize.toNat ≤ maxPayload := by
  constructor
  · intro hp
    refine ⟨?_, Frame.payloadSize_le_of_parse hp⟩
    obtain ⟨m₀, m₁, m₂, m₃, v, opcode, r₀, r₁, s₀, s₁, s₂, s₃, rest, rfl⟩ :=
      Frame.exists_header_octets (Frame.headerSize_le_of_parse hp)
    have hm := Octets.bigEndian_number [m₀, m₁, m₂, m₃]
    have hs := Octets.bigEndian_number [s₀, s₁, s₂, s₃]
    have hn : Octets.number [s₀, s₁, s₂, s₃] < UInt32.size :=
      Nat.lt_of_lt_of_le (Octets.number_lt [s₀, s₁, s₂, s₃]) (show 256 ^ 4 ≤ UInt32.size by decide)
    rw [show [m₀, m₁, m₂, m₃].length = 4 from rfl] at hm
    rw [show [s₀, s₁, s₂, s₃].length = 4 from rfl] at hs
    simp only [parse] at hp
    split at hp
    · cases hp
    next hmagic =>
    split at hp
    · cases hp
    next hversion =>
    split at hp <;> cases hp
    rw [not_not] at hmagic hversion
    refine ⟨rest, ?_⟩
    rw [toOctets, UInt32.toNat_ofNat_of_lt' hn, ← hversion, ← hmagic, hm, hs]
    rfl
  · rintro ⟨⟨rest, rfl⟩, hsize⟩
    exact Frame.parse_toOctets hsize rest

end Header

namespace Frame

/-- The octets start with a frame that announces a body of `n` octets: the letters `AQMB`, version 1, any opcode and any
two reserved octets, the number `n`, within the limit, and no fewer octets after it. -/
structure Announces (o : Octets) (n : Nat) : Prop where
  header : headerSize ≤ o.length
  magic : o.take 4 = [0x41, 0x51, 0x4D, 0x42]
  version : o[4]? = some 1
  size : Octets.number ((o.drop 8).take 4) = n
  limit : n ≤ maxPayload
  body : headerSize + n ≤ o.length

theorem Announces.exists_parse {o : Octets} {n : Nat} (h : Announces o n) :
    ∃ header, Header.parse o = .ok header ∧ header.payloadSize.toNat = n := by
  obtain ⟨m₀, m₁, m₂, m₃, v, opcode, r₀, r₁, s₀, s₁, s₂, s₃, rest, rfl⟩ := exists_header_octets h.header
  have hmagic := h.magic
  have hversion := h.version
  have hsize := h.size
  have hlimit := h.limit
  simp only [List.take_succ_cons, List.take_zero, List.cons.injEq, and_true] at hmagic
  obtain ⟨rfl, rfl, rfl, rfl⟩ := hmagic
  simp only [List.getElem?_cons_succ, List.getElem?_cons_zero, Option.some.injEq] at hversion
  subst hversion
  simp only [List.drop_succ_cons, List.drop_zero, List.take_succ_cons, List.take_zero] at hsize
  refine ⟨⟨opcode, (r₀, r₁), UInt32.ofNat n⟩, ?_, UInt32.toNat_ofNat_of_lt' (Nat.lt_of_le_of_lt hlimit (by decide))⟩
  rw [Header.parse, hsize, if_neg (by decide), if_neg (by decide), if_neg (Nat.not_lt.2 hlimit)]

/-- A header that octets start with, and the body it announces. -/
theorem announces_of_prefix {o : Octets} {header : Header} (hp : header.toOctets <+: o)
    (hlimit : header.payloadSize.toNat ≤ maxPayload) (hbody : headerSize + header.payloadSize.toNat ≤ o.length) :
    Announces o header.payloadSize.toNat := by
  obtain ⟨rest, rfl⟩ := hp
  have hsize : ((header.toOctets ++ rest).drop 8).take 4 = Octets.bigEndian 4 header.payloadSize.toNat := rfl
  exact
    { header := by omega
      magic := rfl
      version := rfl
      size := hsize ▸ Octets.number_bigEndian header.payloadSize.toNat_lt
      limit := hlimit
      body := hbody }

/-! ## Reading -/

theorem payloadSize_header {f : Frame} (h : f.payload.length ≤ maxPayload) :
    f.header.payloadSize.toNat = f.payload.length := by
  have hfits : maxPayload < UInt32.size := by decide
  have hfield : maxSizeField = UInt32.size - 1 := rfl
  rw [header, UInt32.toNat_ofNat_of_lt' (by omega), Nat.min_eq_left (by omega)]

theorem encode_eq_ok_iff {f : Frame} {w : Octets} :
    f.encode = .ok w ↔ f.payload.length ≤ maxPayload ∧ w = f.header.toOctets ++ f.payload := by
  unfold encode
  split
  · next hlong =>
    constructor
    · intro h
      cases h
    · rintro ⟨hshort, -⟩
      omega
  · next hshort =>
    rw [Except.ok.injEq, eq_comm]
    exact ⟨fun h => ⟨Nat.not_lt.1 hshort, h⟩, And.right⟩

/-- A frame that was read stands behind its own header. -/
theorem exists_rest_of_decode {o : Octets} {f : Frame} (h : decode o = .ok f) :
    f.payload.length ≤ maxPayload ∧ ∃ rest, o = f.header.toOctets ++ f.payload ++ rest := by
  refine ⟨length_payload_le_maxPayload h, ?_⟩
  unfold decode at h
  split at h
  · cases h
  next header hp =>
  split at h
  · next payload rest hs =>
    cases h
    obtain ⟨⟨behind, rfl⟩, hlimit⟩ := Header.parse_eq_ok_iff.1 hp
    rw [List.drop_left' (length_toOctets _)] at hs
    obtain ⟨rfl, hlength⟩ := Octets.split?_eq_some_iff.1 hs
    have hsize := payloadSize_header (f := ⟨header.opcode, header.reserved, payload⟩) (hlength ▸ hlimit)
    have hheader : Frame.header ⟨header.opcode, header.reserved, payload⟩ = header := by
      rw [Frame.header, Header.mk.injEq]
      exact ⟨rfl, rfl, UInt32.toNat.inj (hsize.trans hlength)⟩
    exact ⟨rest, by rw [hheader, List.append_assoc]⟩
  · cases h

/-- **Octets hold a frame exactly where they announce one and start with its octets.** -/
theorem decode_eq_ok_iff {o : Octets} {f : Frame} :
    decode o = .ok f ↔ ∃ n, Announces o n ∧ f.encode = .ok (o.take (headerSize + n)) := by
  constructor
  · intro h
    obtain ⟨hlimit, rest, rfl⟩ := exists_rest_of_decode h
    have hsize := payloadSize_header hlimit
    refine ⟨f.payload.length, hsize ▸ announces_of_prefix ?_ (hsize ▸ hlimit) ?_, encode_eq_ok_iff.2 ⟨hlimit, ?_⟩⟩
    · exact (List.prefix_append _ _).trans (List.prefix_append _ _)
    · exact hsize ▸ length_payload_le h
    · exact List.take_left' (by rw [List.length_append, length_toOctets])
  · rintro ⟨n, -, hencode⟩
    have h := decode_encode hencode (o.drop (headerSize + n))
    rwa [List.take_append_drop] at h

theorem Announces.exists_decode {o : Octets} {n : Nat} (h : Announces o n) : ∃ f, decode o = .ok f := by
  obtain ⟨header, hp, rfl⟩ := h.exists_parse
  cases hs : Octets.split? header.payloadSize.toNat (o.drop headerSize) with
  | some parts =>
    simp only [decode, hp, hs]
    exact ⟨_, rfl⟩
  | none =>
    have hshort := Octets.split?_eq_none_iff.1 hs
    have hbody := h.body
    rw [List.length_drop] at hshort
    omega

/-- Octets announce one frame. -/
theorem Announces.unique {o : Octets} {m n : Nat} (hm : Announces o m) (hn : Announces o n) : m = n :=
  hm.size.symm.trans hn.size

/-! ## Cutting off -/

/-- Why the first `present` octets of a frame are refused when there are more. -/
def cut (f : Frame) (present : Nat) : ProtocolError :=
  if present < headerSize then .frameTooShort headerSize present
  else .frameTruncated f.payload.length (present - headerSize)

/-- **A frame that was cut off is refused**, and told how much of it is there. -/
theorem decode_cut {f : Frame} {w front : Octets} (h : f.encode = .ok w) (hfront : front <+: w) (hne : front ≠ w) :
    decode front = .error (f.cut front.length) := by
  obtain ⟨hlimit, rfl⟩ := encode_eq_ok_iff.1 h
  have hsize := payloadSize_header hlimit
  have hlt : front.length < headerSize + f.payload.length := by
    have hle := hfront.length_le
    have hlength : front.length ≠ _ := fun heq => hne (hfront.eq_of_length heq)
    rw [List.length_append, length_toOctets] at hle hlength
    omega
  unfold cut
  split
  · next hshort => rw [decode, Header.parse_of_short hshort]
  · next hlong =>
    -- the header is whole, and what is cut off is the body
    obtain ⟨part, rfl⟩ := List.prefix_of_prefix_length_le (List.prefix_append _ _) hfront
      (by rw [length_toOctets]; exact Nat.not_lt.1 hlong)
    rw [List.length_append, length_toOctets] at hlt
    have hs : Octets.split? f.header.payloadSize.toNat part = none := Octets.split?_eq_none_iff.2 (by omega)
    rw [hsize] at hs
    rw [decode, parse_toOctets (hsize ▸ hlimit)]
    simp only [List.drop_left' (length_toOctets f.header), hsize, hs]

/-! ## Both directions -/

/-- **Reading and writing frames match.** Octets hold a frame exactly where they announce one; the frame is written as
the octets it was read from, has the header that was read, and does not depend on what follows. A frame is written
exactly where its body is within the limit, and is read back from its octets with whatever follows them, but from no
proper front of them. The opcode and the reserved octets are arbitrary throughout. -/
theorem codec (o : Octets) (f : Frame) :
    ((∃ g, decode o = .ok g) ↔ ∃ n, Announces o n) ∧
    (∀ n g, Announces o n → decode o = .ok g →
      g.encode = .ok (o.take (headerSize + n)) ∧ Header.parse o = .ok g.header ∧
        ∀ more, decode (o ++ more) = .ok g) ∧
    ((∃ w, f.encode = .ok w) ↔ f.payload.length ≤ maxPayload) ∧
    (∀ e, f.encode = .error e → e = .payloadTooLarge f.payload.length maxPayload) ∧
    ∀ w, f.encode = .ok w →
      w.length = f.size ∧ (∀ more, decode (w ++ more) = .ok f) ∧
        ∀ front, front <+: w → front ≠ w → decode front = .error (f.cut front.length) := by
  refine ⟨⟨?_, ?_⟩, ?_, ?_, ?_, ?_⟩
  · rintro ⟨g, hg⟩
    obtain ⟨n, hn, -⟩ := decode_eq_ok_iff.1 hg
    exact ⟨n, hn⟩
  · rintro ⟨n, hn⟩
    exact hn.exists_decode
  · intro n g hn hg
    obtain ⟨m, hm, hencode⟩ := decode_eq_ok_iff.1 hg
    obtain rfl := hm.unique hn
    refine ⟨hencode, ?_, fun more => ?_⟩
    · obtain ⟨hlimit, rest, rfl⟩ := exists_rest_of_decode hg
      rw [List.append_assoc, parse_toOctets (payloadSize_header hlimit ▸ hlimit)]
    · have h := decode_encode hencode (o.drop (headerSize + m) ++ more)
      rwa [← List.append_assoc, List.take_append_drop] at h
  · constructor
    · rintro ⟨w, hw⟩
      exact (encode_eq_ok_iff.1 hw).1
    · intro hlimit
      exact ⟨_, encode_eq_ok_iff.2 ⟨hlimit, rfl⟩⟩
  · intro e he
    unfold encode at he
    split at he <;> cases he
    rfl
  · intro w hw
    refine ⟨?_, decode_encode hw, fun front => decode_cut hw⟩
    obtain ⟨-, rfl⟩ := encode_eq_ok_iff.1 hw
    rw [List.length_append, length_toOctets, size]

/-- A frame with an opcode and reserved octets that nobody assigned, then one octet more, and the frame cut off within
its body and within its header. -/
theorem codec_unassigned :
    let f : Frame := { opcode := 0x99, reserved := (0, 7), payload := [0xAA, 0xBB] }
    let w : Octets := [0x41, 0x51, 0x4D, 0x42, 1, 0x99, 0, 7, 0, 0, 0, 2, 0xAA, 0xBB]
    (∃ g, decode (w ++ [0xCC]) = .ok g ∧ g.encode = .ok w) ∧ decode (w ++ [0xCC]) = .ok f ∧
      decode (w.take 13) = .error (.frameTruncated 2 1) ∧ decode (w.take 5) = .error (.frameTooShort 12 5) := by
  intro f w
  have hw : f.encode = .ok w := by decide
  have hn : Announces (w ++ [0xCC]) 2 := by constructor <;> decide
  obtain ⟨hread, hback, -, -, hwrite⟩ := codec (w ++ [0xCC]) f
  obtain ⟨g, hg⟩ := hread.2 ⟨2, hn⟩
  obtain ⟨-, hmore, hfronts⟩ := hwrite w hw
  exact ⟨⟨g, hg, (hback 2 g hn hg).1⟩, hmore _, hfronts _ (List.take_prefix _ _) (by decide),
    hfronts _ (List.take_prefix _ _) (by decide)⟩

end Frame

end CoinRelay.Wire
