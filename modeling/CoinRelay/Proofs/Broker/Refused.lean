import CoinRelay.Proofs.Broker.ReplyLength

/-!
# Octets that are refused

A broker refuses octets that it cannot read as a request, replies that come as requests, and records that are not valid
(`Unfit`); it refuses nothing else, and what it refuses leaves no trace (`refuses_iff`).

- `Rejects`, `handle_of_rejects`, `rejects_of_handle`: the messages that are refused, and how;
- `length_body_refused_le`: every refusal fits into a frame, so that it arrives as one.
-/

namespace CoinRelay.Broker

open Wire Cbor

/-! ## Messages -/

/-- The messages that are refused, and how. -/
inductive Rejects : Message → Refusal → Prop
  | coin {coins : List Coin} {e : BrokerError} (h : invalid? coins = some e) :
    Rejects (.publish coins) (.invalidPayload e.message)
  | packet {packet : Packet} {e : ProtocolError} (h : packet.check = .error e) :
    Rejects (.send packet) (.invalidPayload (BrokerError.invalidPacket e).message)
  | reply {m : Message} (h : m.opcode.isRequest = false) : Rejects m (.unexpectedOpcode m.opcode)

/-- **What is refused leaves no trace.** -/
theorem handle_of_rejects {m : Message} {r : Refusal} (h : Rejects m r) (b : Broker) : b.handle m = (.error r, b) := by
  cases h with
  | coin h => simp only [handle, publish, h, refuse]
  | packet h => simp only [handle, route, h, refuse]
  | reply h =>
    cases m with
    | publish | fetch | send | drain | count => cases h
    | _ => rfl

theorem rejects_of_handle {m : Message} {b : Broker} {r : Refusal} (h : (b.handle m).1 = .error r) : Rejects m r := by
  cases m with
  | publish coins =>
    simp only [handle, publish] at h
    cases hinvalid : invalid? coins with
    | none =>
      rw [hinvalid] at h
      cases h
    | some e =>
      rw [hinvalid] at h
      cases h
      exact .coin hinvalid
  | fetch ask =>
    simp only [handle] at h
    cases hf : b.fetch ask.user ask.tier with
    | mk coin b' =>
      rw [hf] at h
      cases coin <;> cases h
  | send packet =>
    rcases of_route packet b with ⟨e, he, hb⟩ | ⟨-, hb⟩ <;> simp only [handle, hb] at h <;> cases h
    exact .packet he
  | drain ask | count ask => cases h
  | _ =>
    cases h
    exact .reply rfl

theorem exists_error_of_invalid? {coins : List Coin} {e : BrokerError} (h : invalid? coins = some e) :
    ∃ coin ∈ coins, ∃ source, coin.check = .error source := by
  obtain ⟨⟨coin, i⟩, hmem, he⟩ := List.exists_of_findSome?_eq_some h
  refine ⟨coin, List.mem_of_getElem? (List.mk_mem_zipIdx_iff_getElem?.1 hmem), ?_⟩
  simp only at he
  split at he
  · cases he
  · next source hcheck => exact ⟨source, hcheck⟩

theorem exists_invalid?_of_error {coins : List Coin} {coin : Coin} {source : ProtocolError} (hc : coin ∈ coins)
    (h : coin.check = .error source) : ∃ e, invalid? coins = some e := by
  cases hinvalid : invalid? coins with
  | none =>
    have := check_of_invalid? hinvalid hc
    rw [h] at this
    cases this
  | some e => exact ⟨e, rfl⟩

/-! ## Octets -/

/-- Octets are refused: the reply fits into a frame, and a refusal is read from it. -/
def Refuses (octets : Octets) (b : Broker) (r : Refusal) : Prop :=
  ∃ o f, (b.respond octets).1 = .ok o ∧ Frame.decode o = .ok f ∧ Message.ofFrame f = .ok (.error r)

/-- What makes octets unfit to be a request, and the code of the refusal: `2` for a reply and `1` for all else. -/
inductive Unfit (octets : Octets) : UInt16 → Prop
  | frame {e : ProtocolError} (h : Frame.decode octets = .error e) : Unfit octets 1
  | opcode {f : Frame} (hf : Frame.decode octets = .ok f) (h : Opcode.ofCode? f.opcode = none) : Unfit octets 1
  | body {f : Frame} {o : Opcode} {e : ProtocolError} (hf : Frame.decode octets = .ok f)
    (ho : Opcode.ofCode? f.opcode = some o) (h : Message.decode o f.payload = .error e) : Unfit octets 1
  | reply {m : Message} (hm : readRequest octets = .ok m) (h : m.opcode.isRequest = false) : Unfit octets 2
  | coin {coins : List Coin} {coin : Coin} {e : ProtocolError} (hm : readRequest octets = .ok (.publish coins))
    (hc : coin ∈ coins) (h : coin.check = .error e) : Unfit octets 1
  | packet {packet : Packet} {e : ProtocolError} (hm : readRequest octets = .ok (.send packet))
    (h : packet.check = .error e) : Unfit octets 1

/-- Every refusal fits into a frame. -/
theorem length_body_refused_le {octets : Octets} {b : Broker} {r : Refusal} (h : (b.answer octets).1 = .error r) :
    (Message.error r).body.length ≤ maxPayload := by
  rw [answer_eq] at h
  cases hm : readRequest octets with
  | error e =>
    rw [hm] at h
    cases h
    exact length_body_refuse_le (moderate_of_readRequest hm)
  | ok m =>
    rw [hm] at h
    obtain ⟨o, body, -, hdecode⟩ := exists_of_readRequest hm
    have hbody := (Message.length_le_of_decode hdecode).1
    have hword : maxPayload + 2 < UInt64.size := by decide
    cases rejects_of_handle h with
    | coin hinvalid =>
      have hcoins := (Message.length_coin_le_of_decode hdecode).1
      exact length_body_refusal_le (utf8ByteSize_of_invalid? (by omega) hinvalid)
    | packet hcheck =>
      have hsize := Message.size_packet_le_of_decode hdecode
      exact length_body_refusal_le (utf8ByteSize_invalidPacket (moderate_of_check_packet (by omega) hcheck))
    | reply => exact length_body_unexpected_le _

/-- The refusal that arrives is the one that the broker answers with. -/
theorem refuses_iff_answer {octets : Octets} {b : Broker} {r : Refusal} :
    Refuses octets b r ↔ (b.answer octets).1 = .error r := by
  constructor
  · rintro ⟨o, f, ho, hf, hr⟩
    have hlen : (b.answer octets).1.body.length ≤ maxPayload := by
      by_contra hlong
      have hencode : (b.respond octets).1 = .error _ := if_pos (Nat.not_le.1 hlong)
      rw [ho] at hencode
      cases hencode
    obtain ⟨o', f', ho', hf', hr'⟩ := Message.exists_frame hlen
    cases ho.symm.trans ho'
    cases hf.symm.trans hf'
    exact Except.ok.inj (hr'.symm.trans hr)
  · intro h
    have hlen := length_body_refused_le h
    rw [← h] at hlen
    obtain ⟨o, f, ho, hf, hr⟩ := Message.exists_frame hlen
    exact ⟨o, f, ho, hf, h ▸ hr⟩

/-- Octets that cannot be read hold no frame, no opcode or no body of it. -/
theorem unfit_of_readRequest {octets : Octets} {e : ProtocolError} (h : readRequest octets = .error e) :
    Unfit octets 1 := by
  unfold readRequest at h
  cases hf : Frame.decode octets with
  | error e' => exact .frame hf
  | ok f =>
    rw [hf] at h
    replace h : Message.ofFrame f = .error e := h
    unfold Message.ofFrame at h
    split at h
    · next o ho => exact .body hf ho h
    · next ho => exact .opcode hf ho

theorem readRequest_of_ofFrame {octets : Octets} {f : Frame} (hf : Frame.decode octets = .ok f)
    {e : ProtocolError} (h : Message.ofFrame f = .error e) : readRequest octets = .error e := by
  rw [readRequest, hf]
  exact h

/-- A refusal that the broker answers with has a cause among those of `Unfit`, and its code. -/
theorem unfit_of_answer {octets : Octets} {b : Broker} {r : Refusal} (h : (b.answer octets).1 = .error r) :
    Unfit octets r.code := by
  rw [answer_eq] at h
  cases hm : readRequest octets with
  | error e =>
    rw [hm] at h
    cases h
    exact unfit_of_readRequest hm
  | ok m =>
    rw [hm] at h
    cases rejects_of_handle h with
    | coin hinvalid =>
      obtain ⟨coin, hc, source, hsource⟩ := exists_error_of_invalid? hinvalid
      exact .coin hm hc hsource
    | packet hcheck => exact .packet hm hcheck
    | reply hreply => exact .reply hm hreply

/-- Octets that are unfit are answered with a refusal of the code, and the broker stays as it is. -/
theorem answer_of_unfit {octets : Octets} {code : UInt16} (h : Unfit octets code) (b : Broker) :
    ∃ r, b.answer octets = (.error r, b) ∧ r.code = code := by
  have hread {e : ProtocolError} (he : readRequest octets = .error e) :
      ∃ r, b.answer octets = (.error r, b) ∧ r.code = 1 := by
    rw [answer_eq, he]
    exact ⟨_, rfl, rfl⟩
  have hmessage {m : Message} {r : Refusal} (hm : readRequest octets = .ok m) (hr : Rejects m r) :
      b.answer octets = (.error r, b) := by
    rw [answer_eq, hm]
    exact handle_of_rejects hr b
  cases h with
  | frame h => exact hread (by rw [readRequest, h]; rfl)
  | opcode hf h => exact hread (readRequest_of_ofFrame hf (by simp only [Message.ofFrame, h]; rfl))
  | body hf ho h => exact hread (readRequest_of_ofFrame hf (by simp only [Message.ofFrame, ho, h]; rfl))
  | reply hm h => exact ⟨_, hmessage hm (.reply h), rfl⟩
  | coin hm hc h =>
    obtain ⟨e, hinvalid⟩ := exists_invalid?_of_error hc h
    exact ⟨_, hmessage hm (.coin hinvalid), rfl⟩
  | packet hm h => exact ⟨_, hmessage hm (.packet h), rfl⟩

/-- **A broker refuses what is unfit and nothing else, with the code of the cause, and what it refuses changes nothing.**
Among what is unfit are batches in which something stands among the coins that is none. -/
theorem refuses_iff (octets : Octets) (b : Broker) :
    (∀ code, (∃ r, Refuses octets b r ∧ r.code = code) ↔ Unfit octets code) ∧
      (∀ r, Refuses octets b r → (b.respond octets).2 = b) ∧
      ∀ f, Frame.decode octets = .ok f → f.opcode = Opcode.publish.code →
        Spoiled Coin (nestingLimit - 1) f.payload → Unfit octets 1 := by
  refine ⟨fun code => ⟨?_, ?_⟩, fun r hr => ?_, fun f hf hop hspoiled => ?_⟩
  · rintro ⟨r, hr, rfl⟩
    exact unfit_of_answer (refuses_iff_answer.1 hr)
  · intro h
    obtain ⟨r, hr, hcode⟩ := answer_of_unfit h b
    exact ⟨r, refuses_iff_answer.2 (by rw [hr]), hcode⟩
  · obtain ⟨r', hr', -⟩ := answer_of_unfit (unfit_of_answer (refuses_iff_answer.1 hr)) b
    show (b.answer octets).2 = b
    rw [hr']
  · obtain ⟨e, he⟩ := readList_error_of_spoiled hspoiled
    have ho : Opcode.ofCode? f.opcode = some .publish := by rw [hop, Opcode.ofCode?_code]
    have hlen := Frame.length_payload_le_maxPayload hf
    have hbody : Message.decode .publish f.payload = .error (.decodeFailed e.message) := by
      rw [Message.decode, if_neg (Nat.not_lt.2 hlen)]
      simp only [Message.ofBody, Message.front, show readList (α := Coin) nestingLimit f.payload = _ from he]
      rfl
    exact .body hf ho hbody

end CoinRelay.Broker
