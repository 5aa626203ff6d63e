import CoinRelay.Proofs.Broker.ReplyLength

/-!
# Every request is answered, but for one coin

A broker behind a server answers whatever octets come (`answered_iff`), unless they ask for a coin whose map is one
octet longer than a body may be. Such a coin came in a body of the full length, its identifier written as a big number
of five octets, which takes two octets less than the number does on the way out (`overlong_of_full`); so where all
requests are shorter, every request is answered (`answered_of_shorter`).

- `held_serve`: no coin gets listed that is longer than the body it came in by two octets;
- `length_body_answer_le`: the body of every other reply is within the limit.
-/

namespace CoinRelay.Broker

open Wire

/-! ## What a broker holds -/

/-- Coins that are longer than a body of `limit` octets by at most one octet, and packets of their lengths. -/
structure Held (limit : Nat) (b : Broker) : Prop where
  coin : ∀ u, ∀ l ∈ b.listings.of u, (Record.write l.coin).length ≤ limit + 1
  size : ∀ u, ∀ q ∈ b.mailboxes.of u, q.size = q.packet.size

/-- The coins published with an operation that keeps to the limit. -/
theorem Held.after {limit : Nat} {b : Broker} (h : Held limit b) (op : Operation)
    (hop : ∀ coin ∈ op.coins, (Record.write coin).length ≤ limit + 1) : Held limit (op.after b) where
  coin u l hl := by
    rcases Operation.mem_listings_after hl with ⟨old, hold, hcoin⟩ | ⟨hmem, -⟩
    · rw [hcoin]
      exact h.coin u old hold
    · exact hop l.coin hmem
  size u q hq := by
    rcases Operation.mem_mailboxes_after hq with hold | ⟨hsize, -⟩
    · exact h.size u q hold
    · exact hsize

/-- The coins that octets bring are longer than a body of theirs by one octet at most. -/
theorem length_coins_of_readRequest {limit : Nat} {octets : Octets} {request : Message} {op : Operation}
    (ho : octets.length ≤ headerSize + limit) (hr : readRequest octets = .ok request)
    (hop : Operation.ofMessage? request = some op) : ∀ coin ∈ op.coins, (Record.write coin).length ≤ limit + 1 := by
  intro coin hc
  obtain ⟨o, body, hlen, hdecode⟩ := exists_of_readRequest hr
  cases request with
  | publish coins =>
    cases hop
    have := (Message.length_coin_le_of_decode hdecode).2 coin hc
    omega
  | _ => cases hop <;> cases hc

theorem Held.respond {limit : Nat} {b : Broker} (h : Held limit b) {octets : Octets}
    (ho : octets.length ≤ headerSize + limit) : Held limit (b.respond octets).2 := by
  show Held limit (b.answer octets).2
  rw [answer_eq]
  cases hr : readRequest octets with
  | error e => exact h
  | ok request =>
    show Held limit (b.handle request).2
    rw [Operation.handle_snd]
    cases hop : Operation.ofMessage? request with
    | none => exact h
    | some op => exact h.after op (length_coins_of_readRequest ho hr hop)

/-! ## Runs -/

/-- What happens to a broker behind a server: octets arrive, a purge is due, the clock moves. -/
inductive Event
  | request (octets : Octets)
  | purge (now : UInt64)
  | clock (reading : Clock)
  deriving DecidableEq, Repr

namespace Event

/-- The broker after an event. -/
def after (e : Event) (b : Broker) : Broker :=
  match e with
  | request octets => (b.respond octets).2
  | purge now => (b.purge now).2
  | clock reading => { b with clock := reading }

/-- The octets that arrive are a header and at most `limit` more. -/
def Within (limit : Nat) : Event → Prop
  | request octets => octets.length ≤ headerSize + limit
  | purge _ | clock _ => True

end Event

/-- The broker after events, one after the other. -/
def serve (events : List Event) (b : Broker) : Broker := events.foldl (fun b e => e.after b) b

theorem Held.event {limit : Nat} {b : Broker} (h : Held limit b) {e : Event} (he : e.Within limit) :
    Held limit (e.after b) := by
  cases e with
  | request octets => exact h.respond he
  | purge now => exact h.after (.purge now) (fun _ hc => by cases hc)
  | clock reading => exact h.after (.clock reading) (fun _ hc => by cases hc)

/-- **Whatever arrives within the limit**, no coin gets listed that is longer than the limit by two octets. -/
theorem held_serve {limit : Nat} {events : List Event} (h : ∀ e ∈ events, e.Within limit) (config : Config)
    (clock : Clock) : Held limit (serve events { config, clock }) := by
  refine List.foldlRecOn events _ ?_ fun b hb e he => hb.event (h e he)
  exact ⟨fun u l hl => by simp [Registry.of_empty] at hl, fun u q hq => by simp [Registry.of_empty] at hq⟩

/-! ## Answers -/

/-- Octets are answered: the reply fits into a frame, and what is read from the frame is a reply. -/
def Answered (octets : Octets) (b : Broker) : Prop :=
  ∃ o f reply, (b.respond octets).1 = .ok o ∧ Frame.decode o = .ok f ∧ Message.ofFrame f = .ok reply ∧
    reply.opcode.isRequest = false

/-- Octets ask for a coin whose map is one octet longer than a body may be. -/
def Overlong (octets : Octets) (b : Broker) : Prop :=
  ∃ ask coin, readRequest octets = .ok (.fetch ask) ∧ (b.fetch ask.user ask.tier).1 = some coin ∧
    (Record.write coin).length = maxPayload + 1

theorem isRequest_handle (request : Message) (b : Broker) : (b.handle request).1.opcode.isRequest = false := by
  cases request with
  | publish coins =>
    simp only [handle]
    cases b.publish coins with
    | mk result b' => cases result <;> rfl
  | fetch request =>
    simp only [handle]
    cases b.fetch request.user request.tier with
    | mk coin b' => cases coin <;> rfl
  | send packet =>
    simp only [handle]
    cases b.route packet with
    | mk result b' => cases result <;> rfl
  | _ => rfl

theorem isRequest_answer (octets : Octets) (b : Broker) : (b.answer octets).1.opcode.isRequest = false := by
  rw [answer_eq]
  split
  · exact isRequest_handle _ b
  · rfl

/-- The reply to a message is short enough, or it is a coin that is not. -/
theorem length_body_handle_le {b : Broker} (h : Held maxPayload b) {octets : Octets} {request : Message}
    (ho : octets.length ≤ headerSize + maxPayload) (hr : readRequest octets = .ok request) :
    (b.handle request).1.body.length ≤ maxPayload ∨ Overlong octets b := by
  obtain ⟨o, body, hlen, hdecode⟩ := exists_of_readRequest hr
  have hword : headerSize + maxPayload + 2 < UInt64.size := by decide
  cases request with
  | publish coins =>
    refine .inl ?_
    have hcoins := (Message.length_coin_le_of_decode hdecode).1
    simp only [handle, publish]
    cases hinvalid : invalid? coins with
    | some e => exact length_body_refusal_le (utf8ByteSize_of_invalid? (by omega) hinvalid)
    | none => exact length_body_publishAck_le _
  | fetch ask =>
    simp only [handle]
    cases hf : b.fetch ask.user ask.tier with
    | mk result b' =>
      cases result with
      | none => exact .inl (Nat.zero_le _)
      | some coin =>
        have hfetch : (b.fetch ask.user ask.tier).1 = some coin := by rw [hf]
        obtain ⟨ls, hd, -⟩ := of_fetch hfetch
        obtain ⟨before, l, rest, hls, -, rfl, -⟩ := dispense?_eq_some hd
        have hcoin := h.coin ask.user l (by simp [hls])
        rcases Nat.lt_or_ge maxPayload (Record.write l.coin).length with hlong | hshort
        · exact .inr ⟨ask, l.coin, hr, hfetch, Nat.le_antisymm hcoin hlong⟩
        · exact .inl hshort
  | send packet =>
    refine .inl ?_
    have hsize := Message.size_packet_le_of_decode hdecode
    rcases of_route packet b with ⟨e, he, hb⟩ | ⟨-, hb⟩ <;> simp only [handle, hb]
    · exact length_body_refusal_le (utf8ByteSize_invalidPacket (moderate_of_check_packet (by omega) he))
    · exact Nat.zero_le _
  | drain ask => exact .inl (length_body_mailbox_le h.size ask.user)
  | count ask => exact .inl (length_body_counts_le _)
  | _ => exact .inl (length_body_unexpected_le _)

/-- **Every reply is short enough**, but for a coin that is not. -/
theorem length_body_answer_le {b : Broker} (h : Held maxPayload b) {octets : Octets}
    (ho : octets.length ≤ headerSize + maxPayload) :
    (b.answer octets).1.body.length ≤ maxPayload ∨ Overlong octets b := by
  rw [answer_eq]
  cases hr : readRequest octets with
  | error e => exact .inl (length_body_refuse_le (moderate_of_readRequest hr))
  | ok request => exact length_body_handle_le h ho hr

/-- A reply that is short enough is an answer. -/
theorem answered_of_length_le {b : Broker} {octets : Octets} (h : (b.answer octets).1.body.length ≤ maxPayload) :
    Answered octets b := by
  obtain ⟨o, f, hencode, hdecode, hreply⟩ := Message.exists_frame h
  exact ⟨o, f, _, hencode, hdecode, hreply, isRequest_answer octets b⟩

/-- A coin that is too long is no answer. -/
theorem not_answered_of_overlong {b : Broker} {octets : Octets} (h : Overlong octets b) : ¬ Answered octets b := by
  rintro ⟨o, -, -, ho, -⟩
  obtain ⟨ask, coin, hr, hf, hlen⟩ := h
  have hreply : (b.answer octets).1 = .coinGranted coin := by
    rw [answer_eq, hr]
    simp only [handle]
    cases hfetch : b.fetch ask.user ask.tier with
    | mk result b' =>
      rw [hfetch] at hf
      cases hf
      rfl
  have henc : (b.answer octets).1.toFrame.encode = .error (.payloadTooLarge (Record.write coin).length maxPayload) := by
    rw [hreply]
    exact if_pos (by show maxPayload < (Record.write coin).length; omega)
  rw [show (b.respond octets).1 = (b.answer octets).1.toFrame.encode from rfl, henc] at ho
  cases ho

/-! ## The coin that is too long -/

section Full

/-- The octets of a frame. -/
def frameOctets (f : Frame) : Octets := f.header.toOctets ++ f.payload

/-- The frame of a batch of one coin, its identifier as a big number. -/
def bigPublish (c : Coin) : Frame := { opcode := Opcode.publish.code, payload := Message.bigBody c }

/-- Asks for a coin of the owner and the tier of a coin. -/
def askFor (c : Coin) : Message := .fetch { user := c.owner, tier := c.tier }

theorem decode_frameOctets {f : Frame} (h : f.payload.length ≤ maxPayload) : Frame.decode (frameOctets f) = .ok f := by
  have hdec := Frame.decode_encode (f := f) (if_neg (Nat.not_lt.2 h)) []
  rwa [List.append_nil] at hdec

theorem length_frameOctets (f : Frame) : (frameOctets f).length = headerSize + f.payload.length := by
  rw [frameOctets, List.length_append, Frame.length_toOctets]

theorem readRequest_bigPublish {c : Coin} (hkid : c.keyId.word.toNat < 256 ^ bigWidth)
    (hlen : (Message.bigBody c).length ≤ maxPayload) :
    readRequest (frameOctets (bigPublish c)) = .ok (.publish [c]) := by
  rw [readRequest, decode_frameOctets (f := bigPublish c) hlen]
  simp only [Except.bind, Message.ofFrame, bigPublish, Opcode.ofCode?_code]
  exact Message.decode_bigBody hkid hlen

theorem readRequest_toFrame {m : Message} (hlen : m.body.length ≤ maxPayload) :
    readRequest (frameOctets m.toFrame) = .ok m := by
  rw [readRequest, decode_frameOctets (f := m.toFrame) hlen]
  exact Message.ofFrame_toFrame hlen

/-- A valid coin is listed where its owner lists none. -/
theorem of_publish_singleton {c : Coin} {b : Broker} (hvalid : c.check = .ok ()) (hnone : b.listings.of c.owner = []) :
    (b.publish [c]).2.listings.of c.owner = [listing b.clock.now c] := by
  have hvalids : ∀ coin ∈ [c], coin.check = .ok () := by simpa using hvalid
  have hnew : ¬Lists b.listings c.owner c.keyId := by simp [Lists, hnone]
  rw [listings_publish, hnone, accepted, invalid?_eq_none_iff.2 hvalids]
  simp [admitted, hnew]

theorem dispense?_singleton (d : Dispense) (l : Listing) :
    ∃ ls, dispense? d l.coin.tier [l] = some (l.coin, ls) := by
  cases d <;> simp [dispense?]

/-- **A coin that came in a body of the full length is too long for a reply.** -/
theorem overlong_of_full (config : Config) (clock : Clock) {c : Coin} (hvalid : c.check = .ok ())
    (hbig : UInt32.size ≤ c.keyId.word.toNat) (hkid : c.keyId.word.toNat < 256 ^ bigWidth)
    (hfull : (Message.bigBody c).length = maxPayload) (hask : (askFor c).body.length ≤ maxPayload) :
    Overlong (frameOctets (askFor c).toFrame)
      (serve [.request (frameOctets (bigPublish c))] { config, clock }) := by
  have hlen : (Record.write c).length = maxPayload + 1 := by
    rw [length_write_eq_bigMap_add_two hbig]
    rw [Message.bigBody, List.length_append] at hfull
    have hhead : (Cbor.Head.write 4 1).length = 1 := rfl
    omega
  refine ⟨_, c, readRequest_toFrame hask, ?_, hlen⟩
  have hserve : serve [.request (frameOctets (bigPublish c))] { config, clock } =
      (publish [c] { config, clock }).2 := by
    simp only [serve, List.foldl_cons, List.foldl_nil, Event.after, respond]
    rw [answer_eq, readRequest_bigPublish hkid (Nat.le_of_eq hfull)]
    exact Operation.handle_snd (.publish [c]) _
  obtain ⟨ls, hd⟩ := dispense?_singleton (publish [c] { config, clock }).2.config.dispense (listing clock.now c)
  simp only [hserve, fetch, of_publish_singleton (b := { config, clock }) hvalid (Registry.of_empty c.owner)]
  have hd' : dispense? (publish [c] { config, clock }).2.config.dispense c.tier [listing clock.now c] =
    some (c, ls) := hd
  rw [hd']

/-! A coin with a signature of the length that fills a body. -/

/-- A coin with a signature of `n` letters. -/
def signed (n : Nat) : Coin where
  owner := "a"
  keyId := ⟨0x100000000⟩
  tier := .gold
  publicKey := "ab"
  signature := String.ofList (List.replicate n 'c')

theorem utf8ByteSize_replicate (n : Nat) : (String.ofList (List.replicate n 'c')).utf8ByteSize = n := by
  induction n with
  | zero => rfl
  | succ n ih =>
    rw [List.replicate_succ, String.ofList_cons, String.utf8ByteSize_append, String.utf8ByteSize_singleton, ih]
    exact Nat.add_comm ..

theorem check_signed {n : Nat} (hn : 0 < n) : (signed n).check = .ok () := by
  have hsig : (signed n).signature.isEmpty = false := by
    rw [signed, String.isEmpty, utf8ByteSize_replicate]
    simpa using Nat.ne_of_gt hn
  have howner : (signed n).owner.isEmpty = false := rfl
  have hkey : ((signed n).publicKey.isEmpty || !Hex.isLower (signed n).publicKey) = false := by
    show ("ab".isEmpty || !Hex.isLower "ab") = false
    decide
  simp only [Coin.check, Coin.fault?, howner, hkey, hsig, Bool.false_eq_true, if_false]

theorem length_bigBody_signed {n : Nat} (h₁ : UInt16.size ≤ n) (h₂ : n < UInt32.size) :
    (Message.bigBody (signed n)).length = n + 41 := by
  have hsig : Cbor.Head.size n = 5 := by
    have h₃ : UInt8.size = 256 := rfl
    have h₄ : UInt16.size = 65536 := rfl
    unfold Cbor.Head.size
    repeat' split
    all_goals omega
  have hnames : "user".utf8ByteSize = 4 ∧ "kid".utf8ByteSize = 3 ∧ "coin".utf8ByteSize = 4 ∧ "pk".utf8ByteSize = 2 ∧
      "sig".utf8ByteSize = 3 := by decide
  have hvalues : "a".utf8ByteSize = 1 ∧ "ab".utf8ByteSize = 2 := by decide
  have htier : (Cbor.writeNatural Tier.gold.code.toNat).length = 1 := rfl
  have hshort {k : Nat} (hk : k < 24) : Cbor.Head.size k = 1 := if_pos hk
  simp only [Message.bigBody, bigMap, List.length_append, Cbor.Head.length_write, Record.writeEntry, Scalar.write,
    Cbor.length_writeText, length_writeBig, signed, utf8ByteSize_replicate, hsig, hnames, hvalues, htier]
  simp (disch := decide) only [hshort]
  omega

end Full

/-! ## Every request but one -/

theorem Held.mono {limit limit' : Nat} {b : Broker} (h : Held limit b) (hle : limit ≤ limit') : Held limit' b where
  coin u l hl := Nat.le_trans (h.coin u l hl) (Nat.succ_le_succ hle)
  size := h.size

/-- Where the bodies that came in were shorter than they may be, no coin is too long. -/
theorem Held.not_overlong {limit : Nat} {b : Broker} (h : Held limit b) (hlimit : limit < maxPayload)
    (octets : Octets) : ¬ Overlong octets b := by
  rintro ⟨ask, coin, -, hf, hlong⟩
  obtain ⟨ls, hd, -⟩ := of_fetch hf
  obtain ⟨before, l, rest, hls, -, rfl, -⟩ := dispense?_eq_some hd
  have := h.coin ask.user l (by simp [hls])
  omega

/-- **Every request is answered, but for one that asks for a coin one octet too long**: whatever arrived before within
the limit, and whatever the configuration and the clock. -/
theorem answered_iff (config : Config) (clock : Clock) (events : List Event)
    (hevents : ∀ e ∈ events, e.Within maxPayload) (octets : Octets) (ho : octets.length ≤ headerSize + maxPayload) :
    Answered octets (serve events { config, clock }) ↔ ¬ Overlong octets (serve events { config, clock }) := by
  refine ⟨fun ha hover => not_answered_of_overlong hover ha, ?_⟩
  intro hover
  rcases length_body_answer_le (held_serve hevents config clock) ho with hlen | hlong
  · exact answered_of_length_le hlen
  · exact absurd hlong hover

/-- A coin that came as a big number in a short body is granted. -/
theorem answered_short_coin :
    Answered (frameOctets (askFor (signed 1)).toFrame)
      (serve [.request (frameOctets (bigPublish (signed 1))), .purge 7, .clock ⟨9⟩] { clock := ⟨5⟩ }) := by
  have hwithin (limit : Nat) (hl : 42 ≤ limit) : ∀ e ∈ [Event.request (frameOctets (bigPublish (signed 1))),
      .purge 7, .clock ⟨9⟩], e.Within limit := by
    have hlen : (frameOctets (bigPublish (signed 1))).length ≤ headerSize + 42 := by decide
    simp only [List.mem_cons, List.not_mem_nil, or_false]
    rintro e (rfl | rfl | rfl)
    · exact Nat.le_trans hlen (Nat.add_le_add_left hl _)
    · trivial
    · trivial
  exact (answered_iff {} ⟨5⟩ _ (hwithin maxPayload (by decide)) _ (by decide)).2
    ((held_serve (hwithin 42 (Nat.le_refl _)) {} ⟨5⟩).not_overlong (by decide) _)

/-- A coin that came as a big number in a body of the full length is not. -/
theorem not_answered_full_coin :
    (frameOctets (bigPublish (signed 4194263))).length = headerSize + maxPayload ∧
      (frameOctets (askFor (signed 4194263)).toFrame).length ≤ headerSize + maxPayload ∧
      ¬ Answered (frameOctets (askFor (signed 4194263)).toFrame)
        (serve [.request (frameOctets (bigPublish (signed 4194263)))] { clock := ⟨1700000000⟩ }) := by
  have hfull : (Message.bigBody (signed 4194263)).length = maxPayload :=
    length_bigBody_signed (by decide) (by decide)
  have hask : (askFor (signed 4194263)).body.length ≤ maxPayload :=
    Nat.le_trans (length_write_le (by decide) _) (by decide)
  refine ⟨(length_frameOctets _).trans (congrArg _ hfull), ?_, not_answered_of_overlong ?_⟩
  · rw [length_frameOctets]
    exact Nat.add_le_add_left hask _
  · exact overlong_of_full {} _ (check_signed (by decide)) (by decide) (by decide) hfull hask

/-- **Where all that arrives is shorter than it may be, every request is answered.** -/
theorem answered_of_shorter (config : Config) (clock : Clock) {limit : Nat} (hlimit : limit < maxPayload)
    {events : List Event} (hevents : ∀ e ∈ events, e.Within limit) {octets : Octets}
    (ho : octets.length ≤ headerSize + maxPayload) : Answered octets (serve events { config, clock }) := by
  have hheld := held_serve hevents config clock
  rcases length_body_answer_le (hheld.mono (Nat.le_of_lt hlimit)) ho with hlen | hlong
  · exact answered_of_length_le hlen
  · exact absurd hlong (hheld.not_overlong hlimit octets)

end CoinRelay.Broker
