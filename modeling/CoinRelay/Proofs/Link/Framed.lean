import CoinRelay.Link.Direct
import CoinRelay.Proofs.Wire.RoundTrip

/-!
# A framed link answers as the broker at hand

A call made through frames is the message of its request handed to the broker and the message of the reply handed back
(`exchange_eq`). So `Link.framed` and `Link.direct` give the same answer and leave the same broker, whatever the call and
the broker, as long as the bodies of the request and of the reply fit into frames (`framed_make_eq_direct_make`).
-/

namespace CoinRelay.Link

open Wire

/-! ## Calls as data -/

/-- What a call answers. -/
inductive Answer
  | published (ack : PublishAck)
  | fetched (coin : Option Coin)
  | sent
  | drained (packets : List Packet)
  | counted (counts : Tier.Counts)
  deriving DecidableEq, Repr

/-- Changes the answer of a call. -/
def answering {α σ : Type} (f : α → Answer) (result : Except LinkError α × σ) : Except LinkError Answer × σ :=
  (result.1.map f, result.2)

/-- Makes a call on a link. -/
def make {σ : Type} (l : Link σ) (call : Call) (s : σ) : Except LinkError Answer × σ :=
  match call with
  | .publish coins => answering .published (l.publish coins s)
  | .fetch user tier => answering .fetched (l.fetch user tier s)
  | .send packet => answering (fun _ => .sent) (l.send packet s)
  | .drain user => answering .drained (l.drain user s)
  | .count user => answering .counted (l.count user s)

/-- The message that asks for a call. -/
def Call.request : Call → Message
  | publish coins => .publish coins
  | fetch user tier => .fetch { user, tier }
  | send packet => .send packet
  | drain user => .drain { user }
  | count user => .count { user }

/-! ## One exchange -/

/-- A message as a client takes it: a refusal is a rejection. -/
def ofReply : Message → Except LinkError Message
  | .error refusal => .error (.rejected refusal.code refusal.message)
  | message => .ok message

/-- A reply that fits into a frame is understood. -/
theorem interpret_encode {reply : Message} {o : Octets} (h : reply.body.length ≤ maxPayload)
    (ho : reply.toFrame.encode = .ok o) : interpret o = ofReply reply := by
  have hd := Frame.decode_encode ho []
  rw [List.append_nil] at hd
  simp only [interpret, hd, Except.bind, Message.ofFrame_toFrame h]
  cases reply <;> rfl

theorem encode_toFrame {m : Message} (h : m.body.length ≤ maxPayload) : ∃ o, m.toFrame.encode = .ok o :=
  ⟨_, if_neg (Nat.not_lt.2 h)⟩

/-- The octets of a request reach the broker as the request. -/
theorem answer_encode {request : Message} {o : Octets} (h : request.body.length ≤ maxPayload)
    (ho : request.toFrame.encode = .ok o) (b : Broker) : b.answer o = b.handle request := by
  have hd := Frame.decode_encode ho []
  rw [List.append_nil] at hd
  simp only [Broker.answer, hd, Broker.handleFrame, Message.ofFrame_toFrame h]

/-- **An exchange of frames is an exchange of messages.** -/
theorem exchange_eq {request : Message} {b : Broker} (hreq : request.body.length ≤ maxPayload)
    (hrep : (b.handle request).1.body.length ≤ maxPayload) :
    exchange request b = (ofReply (b.handle request).1, (b.handle request).2) := by
  obtain ⟨o, ho⟩ := encode_toFrame hreq
  obtain ⟨r, hr⟩ := encode_toFrame hrep
  have hb : b.respond o = (.ok r, (b.handle request).2) := by
    simp only [Broker.respond, answer_encode hreq ho, hr]
  simp only [exchange, ho, hb, Except.toOption, Option.getD_some, interpret_encode hrep hr]

theorem call_eq {α : Type} {request : Message} {b : Broker} (part : Message → Option α)
    (hreq : request.body.length ≤ maxPayload) (hrep : (b.handle request).1.body.length ≤ maxPayload) :
    Link.call request part b = (expect part (ofReply (b.handle request).1), (b.handle request).2) := by
  simp only [Link.call, exchange_eq hreq hrep]

/-! ## The five calls -/

/-- The broker at hand takes a call or refuses the records in it, and nothing else goes wrong. -/
theorem direct_make_ne_protocol (call : Call) (b : Broker) (reason : String) :
    (direct.make call b).1 ≠ .error (.protocol reason) := by
  cases call with
  | publish coins =>
    show ((b.publish coins).1.mapError rejection).map Answer.published ≠ _
    cases (b.publish coins).1 <;> simp [Except.mapError, Except.map, rejection]
  | send packet =>
    show ((b.route packet).1.mapError rejection).map (fun _ => Answer.sent) ≠ _
    cases (b.route packet).1 <;> simp [Except.mapError, Except.map, rejection]
  | _ => exact fun h => by cases h

/-- **The wire changes nothing**: the same answer, the same broker, and never a reply of the wrong kind. -/
theorem framed_make_eq_direct_make (call : Call) (b : Broker) (hreq : call.request.body.length ≤ maxPayload)
    (hrep : (b.handle call.request).1.body.length ≤ maxPayload) :
    framed.make call b = direct.make call b ∧ ∀ reply, (framed.make call b).1 ≠ .error (unexpected reply) := by
  have heq : framed.make call b = direct.make call b := by
    cases call with
    | publish coins =>
      refine (congrArg (answering Answer.published) (call_eq _ hreq hrep)).trans ?_
      simp only [Call.request, Broker.handle, make, direct]
      cases b.publish coins with
      | mk result b' => cases result <;> rfl
    | fetch user tier =>
      refine (congrArg (answering Answer.fetched) (call_eq _ hreq hrep)).trans ?_
      simp only [Call.request, Broker.handle, make, direct]
      cases b.fetch user tier with
      | mk coin b' => cases coin <;> rfl
    | send packet =>
      refine (congrArg (answering fun _ => Answer.sent) (call_eq _ hreq hrep)).trans ?_
      simp only [Call.request, Broker.handle, make, direct]
      cases b.route packet with
      | mk result b' => cases result <;> rfl
    | drain user =>
      exact congrArg (answering Answer.drained) (call_eq _ hreq hrep)
    | count user =>
      exact congrArg (answering Answer.counted) (call_eq _ hreq hrep)
  refine ⟨heq, ?_⟩
  intro reply h
  rw [heq] at h
  exact direct_make_ne_protocol call b _ h

/-- A coin of Ada's. -/
def silverCoin : Coin where
  owner := "ada"
  keyId := ⟨7⟩
  tier := .silver
  publicKey := "ab"
  signature := "s"

/-- A broker that lists Ada's coin. -/
def stocked : Broker := (Broker.publish [silverCoin] { clock := ⟨0⟩ }).2

/-- The coin arrives through frames as it does at hand. -/
theorem framed_make_fetch_stocked :
    (framed.make (.fetch "ada" .silver) stocked).1 = .ok (.fetched (some silverCoin)) ∧
      (framed.make (.fetch "ada" .silver) stocked).2 = (direct.make (.fetch "ada" .silver) stocked).2 := by
  obtain ⟨h, -⟩ := framed_make_eq_direct_make (.fetch "ada" .silver) stocked (by decide) (by decide)
  rw [h]
  exact ⟨by decide, rfl⟩

end CoinRelay.Link
