import CoinRelay.Proofs.Broker.Operation
import CoinRelay.Proofs.Wire.Fault
import CoinRelay.Proofs.Wire.Length

/-!
# Replies fit into frames

The bodies of all replies but coins are short, whatever they answer.

- acknowledgements and counts: `length_body_publishAck_le`, `length_body_counts_le`;
- the packets of a drained mailbox: `length_body_mailbox_le`;
- refusals, which are as long as their texts: `length_body_refuse_le`, `utf8ByteSize_of_invalid?`,
  `utf8ByteSize_invalidPacket`, `length_body_unexpected_le`; a request that cannot be read is refused in few words
  (`moderate_of_readRequest`).
-/

namespace CoinRelay.Broker

open Wire

/-! ## Bodies of replies -/

section Bodies

/-- The octets of the text in a scalar. -/
def textSize : Scalar → Nat
  | .text s => s.utf8ByteSize
  | .number _ | .tier _ => 0

theorem length_write_scalar_le (v : Scalar) : v.write.length ≤ 9 + textSize v := by
  cases v with
  | text s =>
    have := Cbor.Head.size_le_nine s.utf8ByteSize
    rw [Scalar.write, Cbor.length_writeText, textSize]
    omega
  | number n =>
    rw [Scalar.write, Cbor.writeNatural, Cbor.Head.length_write]
    exact Cbor.Head.size_le_nine n
  | tier t =>
    rw [length_write_tier]
    omega

theorem length_entries_le_sum {fields : List Field} (hf : ∀ f ∈ fields, f.name.utf8ByteSize ≤ 16) (vs : List Scalar) :
    (List.zipWith Record.writeEntry fields vs).flatten.length ≤ (vs.map fun v => 34 + textSize v).sum := by
  induction fields generalizing vs with
  | nil => exact Nat.zero_le _
  | cons f fields ih =>
    cases vs with
    | nil => exact Nat.zero_le _
    | cons v vs =>
      have hname := hf f List.mem_cons_self
      have hhead := Cbor.Head.size_le_nine f.name.utf8ByteSize
      have hvalue := length_write_scalar_le v
      have hrest := ih (fun g hg => hf g (List.mem_cons_of_mem _ hg)) vs
      rw [List.zipWith_cons_cons, List.flatten_cons, List.length_append, Record.writeEntry, List.length_append,
        Cbor.length_writeText, List.map_cons, List.sum_cons]
      omega

/-- A record whose fields have short names is as long as its texts, but for its heads and names. -/
theorem length_write_le {α : Type} [Record α] (hf : ∀ f ∈ Record.fields α, f.name.utf8ByteSize ≤ 16) (a : α) :
    (Record.write a).length ≤ 9 + ((Record.toScalars a).map fun v => 34 + textSize v).sum := by
  have h₁ := Cbor.Head.size_le_nine (Record.fields α).length
  have h₂ := length_entries_le_sum hf (Record.toScalars a)
  rw [Record.length_write]
  omega

/-- A refusal of few words fits into a frame. -/
theorem length_body_refusal_le {r : Refusal} (h : r.message.utf8ByteSize ≤ 1024) :
    (Message.error r).body.length ≤ maxPayload := by
  have hle := length_write_le (by decide) r
  have hsum : ((Record.toScalars r).map fun v => 34 + textSize v).sum = 34 + (34 + r.message.utf8ByteSize) := rfl
  have hmax : 2048 ≤ maxPayload := by decide
  rw [Message.body]
  omega

theorem length_body_publishAck_le (ack : PublishAck) : (Message.publishAck ack).body.length ≤ maxPayload :=
  Nat.le_trans (length_write_le (by decide) ack) (show 9 + (34 + (34 + 0)) ≤ maxPayload by decide)

theorem length_body_counts_le (counts : Tier.Counts) : (Message.counts counts).body.length ≤ maxPayload :=
  Nat.le_trans (length_write_le (by decide) counts) (show 9 + (34 + (34 + (34 + 0))) ≤ maxPayload by decide)

/-- The packets of a drained mailbox fit into a frame together with the head of their list. -/
theorem length_body_mailbox_le {b : Broker} (hsize : ∀ u, ∀ q ∈ b.mailboxes.of u, q.size = q.packet.size)
    (user : String) : (Message.mailbox (b.drain user).1).body.length ≤ maxPayload := by
  obtain ⟨taken, hqs, htaken, hsum⟩ := fill_append mailboxBudget (b.mailboxes.of user)
  have hhead := Cbor.Head.size_le_nine (b.drain user).1.length
  have hpackets : ((b.drain user).1.flatMap Record.write).length = (taken.map (·.size)).sum := by
    rw [drain, htaken, List.length_flatMap, List.map_map]
    refine congrArg List.sum (List.map_congr_left ?_)
    intro q hq
    exact (hsize user q (hqs ▸ List.mem_append_left _ hq)).symm
  have hmax : maxPayload = mailboxBudget + 9 := rfl
  rw [Message.body, writeList, List.length_append, Cbor.Head.length_write, hpackets]
  omega

end Bodies

/-! ## Texts of refusals -/

section Refusals

theorem length_body_refuse_le {e : ProtocolError} (h : e.Moderate) : (refuse e.message).body.length ≤ maxPayload :=
  length_body_refusal_le (Nat.le_trans (ProtocolError.utf8ByteSize_message_le h) (by decide))

theorem moderate_of_check_coin {coin : Coin} {e : ProtocolError} (h : coin.check = .error e) : e.Moderate := by
  unfold Coin.check at h
  split at h <;> cases h
  trivial

theorem moderate_of_check_packet {packet : Packet} {e : ProtocolError} (hs : packet.size < UInt64.size)
    (h : packet.check = .error e) : e.Moderate := by
  unfold Packet.check at h
  split at h
  · cases h
    trivial
  · split at h <;> cases h
    exact ⟨hs, by decide⟩

/-- The text for a refused batch names the place of a coin. -/
theorem utf8ByteSize_of_invalid? {coins : List Coin} {e : BrokerError} (hlen : coins.length < UInt64.size)
    (h : invalid? coins = some e) : e.message.utf8ByteSize ≤ 1024 := by
  obtain ⟨⟨coin, i⟩, hmem, he⟩ := List.exists_of_findSome?_eq_some h
  have hi : i < coins.length := (List.mk_mem_zipIdx_iff_getElem?.1 hmem |> List.getElem?_eq_some_iff.1).1
  simp only at he
  split at he
  · cases he
  · next source hcheck =>
    cases he
    have hindex := utf8ByteSize_decimal_le (Nat.lt_trans hi hlen)
    have hsource := ProtocolError.utf8ByteSize_message_le (moderate_of_check_coin hcheck)
    exact Nat.le_trans (append_le (append_le (append_le (m := 32) (by decide) hindex) (n := 32) (by decide)) hsource)
      (by decide)

theorem utf8ByteSize_invalidPacket {e : ProtocolError} (h : e.Moderate) :
    (BrokerError.invalidPacket e).message.utf8ByteSize ≤ 1024 :=
  Nat.le_trans (append_le (m := 32) (by decide) (ProtocolError.utf8ByteSize_message_le h)) (by decide)

theorem length_body_unexpected_le (o : Opcode) : (Message.error (.unexpectedOpcode o)).body.length ≤ maxPayload :=
  length_body_refusal_le (Nat.le_trans (append_le (append_le (m := 32) (by decide)
    (utf8ByteSize_octetText o.code)) (n := 32) (by decide)) (by decide))

end Refusals

/-! ## Octets that hold no message -/

theorem exists_of_readRequest {octets : Octets} {m : Message} (h : readRequest octets = .ok m) :
    ∃ o body, headerSize + body.length ≤ octets.length ∧ Message.decode o body = .ok m := by
  obtain ⟨f, hf, hm⟩ : ∃ f, Frame.decode octets = .ok f ∧ Message.ofFrame f = .ok m := by
    unfold readRequest at h
    cases hf : Frame.decode octets with
    | error e => rw [hf] at h; cases h
    | ok f => rw [hf] at h; exact ⟨f, rfl, h⟩
  unfold Message.ofFrame at hm
  split at hm
  · next o _ => exact ⟨o, f.payload, Frame.length_payload_le hf, hm⟩
  · cases hm

theorem moderate_of_readRequest {octets : Octets} {e : ProtocolError} (h : readRequest octets = .error e) :
    e.Moderate := by
  unfold readRequest at h
  cases hf : Frame.decode octets with
  | error e' =>
    rw [hf] at h
    cases h
    exact Frame.decode_moderate hf
  | ok f =>
    rw [hf] at h
    have := Frame.length_payload_le_maxPayload hf
    exact Message.ofFrame_moderate (Nat.lt_of_le_of_lt this (by decide)) h

end CoinRelay.Broker
