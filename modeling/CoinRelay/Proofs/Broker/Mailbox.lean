import CoinRelay.Proofs.Broker.ReplyLength
import CoinRelay.Proofs.Broker.Run
import CoinRelay.Proofs.Wire.RoundTrip

/-!
# Mailboxes are queues

Packets leave a mailbox in the order in which they came in, each of them once (`mailbox_is_queue`). A drain takes as
many from the front as one reply has room for, and never none if some wait, so that as many drains as there are packets
empty a mailbox.

- `Operation.routedTo`, `Operation.drainedBy`: the packets that come in for a user, and those that go out;
- `waiting_after`, `waiting_run`: what waited or came in goes out or waits;
- `Checked`, `checked_run`: the lengths kept with the packets are true and within what a reply has room for;
- `prefix_fill`, `drain_ne_nil`, `waiting_drains`: how much a drain takes, and that it gets on.
-/

namespace CoinRelay.Broker

open Wire

variable {b : Broker} {user : String}

/-- The packets that wait for a user, the oldest first. -/
def waiting (user : String) (b : Broker) : List Packet := (b.mailboxes.of user).map (·.packet)

/-! ## In and out -/

namespace Operation

/-- The packet that an operation puts into the mailbox of a user. -/
def routedTo (user : String) : Operation → Broker → List Packet
  | route packet, b =>
    match (b.route packet).1 with
    | .ok () => if packet.recipient = user then [packet] else []
    | .error _ => []
  | _, _ => []

/-- The packets that an operation takes out of the mailbox of a user. -/
def drainedBy (user : String) : Operation → Broker → List Packet
  | drain other, b => b.drained other user
  | _, _ => []

/-- What comes in for a user is addressed to it. -/
theorem recipient_of_mem_routedTo {op : Operation} {packet : Packet} (h : packet ∈ op.routedTo user b) :
    packet.recipient = user := by
  cases op with
  | route other =>
    simp only [routedTo] at h
    split at h
    · split at h
      · next hu =>
        cases List.mem_singleton.1 h
        exact hu
      · cases h
    · cases h
  | _ => cases h

end Operation

/-- **One operation**: what waited or comes in goes out or waits. -/
theorem waiting_after (op : Operation) (b : Broker) (user : String) :
    b.waiting user ++ op.routedTo user b = op.drainedBy user b ++ (op.after b).waiting user := by
  cases op with
  | route packet =>
    rcases of_route packet b with ⟨e, -, hroute⟩ | ⟨-, hroute⟩
    · simp only [Operation.routedTo, Operation.after, hroute]
      exact List.append_nil _
    · have hpackets := packets_route (by rw [hroute]) user
      have hrouted : (Operation.route packet).routedTo user b = [packet].filter (·.recipient = user) := by
        simp only [Operation.routedTo, hroute]
        by_cases hu : packet.recipient = user <;> simp [hu]
      rw [hrouted]
      exact hpackets.symm
  | drain other => exact (List.append_nil _).trans (packets_drain other user b)
  | publish coins =>
    rw [Operation.after, waiting, waiting, mailboxes_publish]
    exact List.append_nil _
  | fetch other tier =>
    rw [Operation.after, waiting, waiting, mailboxes_fetch]
    exact List.append_nil _
  | count | purge | clock => exact List.append_nil _

/-- **A run**: what waited or came in went out or waits. -/
theorem waiting_run (ops : List Operation) (b : Broker) (user : String) :
    b.waiting user ++ gather (Operation.routedTo user) ops b =
      gather (Operation.drainedBy user) ops b ++ (run ops b).waiting user := by
  induction ops generalizing b with
  | nil => exact List.append_nil _
  | cons op ops ih =>
    calc b.waiting user ++ gather (Operation.routedTo user) (op :: ops) b
        = b.waiting user ++ op.routedTo user b ++ gather (Operation.routedTo user) ops (op.after b) := by
          rw [gather, List.append_assoc]
      _ = op.drainedBy user b ++
            ((op.after b).waiting user ++ gather (Operation.routedTo user) ops (op.after b)) := by
          rw [waiting_after, List.append_assoc]
      _ = gather (Operation.drainedBy user) (op :: ops) b ++ (run (op :: ops) b).waiting user := by
          rw [ih, gather, List.append_assoc]
          rfl

theorem recipient_of_mem_gather {ops : List Operation} {packet : Packet}
    (h : packet ∈ gather (Operation.routedTo user) ops b) : packet.recipient = user := by
  induction ops generalizing b with
  | nil => cases h
  | cons op ops ih =>
    rw [gather, List.mem_append] at h
    rcases h with h | h
    · exact Operation.recipient_of_mem_routedTo h
    · exact ih h

/-! ## What is kept with a packet -/

theorem size_le_of_check {packet : Packet} (h : packet.check = .ok ()) : packet.size ≤ mailboxBudget := by
  unfold Packet.check at h
  split at h
  · cases h
  · split at h
    · cases h
    · next hle => exact Nat.not_lt.1 hle

/-- Every packet is valid and waits for its recipient, and its length is kept with it. -/
def Checked (b : Broker) : Prop :=
  ∀ user, ∀ q ∈ b.mailboxes.of user,
    q.size = q.packet.size ∧ q.packet.recipient = user ∧ q.packet.check = .ok ()

theorem Checked.after (h : Checked b) (op : Operation) : Checked (op.after b) := by
  intro user q hq
  rcases Operation.mem_mailboxes_after hq with hold | hnew
  · exact h user q hold
  · exact hnew

theorem checked_run (config : Config) (clock : Clock) (ops : List Operation) :
    Checked (run ops { config, clock }) := by
  refine List.foldlRecOn ops _ ?_ fun b hb op _ => hb.after op
  intro user q hq
  rw [Registry.of_empty] at hq
  cases hq

/-! ## One drain -/

/-- The packets of a mailbox that have room are among those taken. -/
theorem prefix_fill {budget : Nat} {qs more : List Queued} (h : more <+: qs)
    (hsum : (more.map (·.size)).sum ≤ budget) : more.map (·.packet) <+: (fill budget qs).1 := by
  induction qs generalizing budget more with
  | nil =>
    rw [List.prefix_nil.1 h]
    exact List.nil_prefix
  | cons q qs ih =>
    cases more with
    | nil => exact List.nil_prefix
    | cons first more =>
      obtain ⟨rfl, hmore⟩ := List.cons_prefix_cons.1 h
      rw [List.map_cons, List.sum_cons] at hsum
      have hroom : first.size ≤ budget := by omega
      have hbound : (more.map (·.size)).sum ≤ budget - first.size := by omega
      have hrest := ih hmore hbound
      unfold fill
      rw [if_pos hroom]
      exact List.cons_prefix_cons.2 ⟨rfl, hrest⟩

/-- What is kept as the lengths of packets are their lengths. -/
theorem Checked.map_size (h : Checked b) {qs : List Queued} (hsub : qs ⊆ b.mailboxes.of user) :
    qs.map (·.size) = (qs.map (·.packet)).map Packet.size := by
  rw [List.map_map]
  exact List.map_congr_left fun q hq => (h user q (hsub hq)).1

/-- A drain takes no more than a reply has room for. -/
theorem Checked.sum_drain_le (h : Checked b) (user : String) :
    ((b.drain user).1.map Packet.size).sum ≤ mailboxBudget := by
  obtain ⟨taken, hqs, htaken, hsum⟩ := fill_append mailboxBudget (b.mailboxes.of user)
  have hsub : taken ⊆ b.mailboxes.of user := by
    rw [hqs]
    exact List.subset_append_left _ _
  rw [h.map_size hsub] at hsum
  rw [drain, htaken]
  exact hsum

/-- A drain takes no less, either. -/
theorem Checked.prefix_drain (h : Checked b) {more : List Packet} (hmore : more <+: b.waiting user)
    (hsum : (more.map Packet.size).sum ≤ mailboxBudget) : more <+: (b.drain user).1 := by
  obtain ⟨qs, hqs, rfl⟩ := List.prefix_map_iff.1 hmore
  rw [← h.map_size hqs.subset] at hsum
  exact prefix_fill hqs hsum

/-- **A drain gets on**: it takes a packet if one waits. -/
theorem Checked.drain_ne_nil (h : Checked b) (hwait : b.waiting user ≠ []) : (b.drain user).1 ≠ [] := by
  unfold waiting at hwait
  cases hqs : b.mailboxes.of user with
  | nil =>
    rw [hqs] at hwait
    exact absurd rfl hwait
  | cons q qs =>
    have hq := h user q (by rw [hqs]; exact List.mem_cons_self)
    have hsize := size_le_of_check hq.2.2
    have hfirst : [q.packet] <+: b.waiting user := by
      rw [waiting, hqs]
      exact ⟨qs.map (·.packet), rfl⟩
    have htaken := h.prefix_drain hfirst (by simpa using hsize)
    intro hnil
    rw [hnil, List.prefix_nil] at htaken
    cases htaken

/-- **As many drains as packets** empty a mailbox. -/
theorem Checked.waiting_drains (h : Checked b) {n : Nat} (hn : (b.waiting user).length ≤ n) :
    (run (List.replicate n (.drain user)) b).waiting user = [] := by
  induction n generalizing b with
  | zero => exact List.length_eq_zero_iff.1 (Nat.le_zero.1 hn)
  | succ n ih =>
    refine ih (h.after (.drain user)) ?_
    have hsplit := congrArg List.length (packets_drain user user b)
    rw [List.length_append, drained, if_pos rfl] at hsplit
    by_cases hwait : b.waiting user = []
    · have hnone : (b.waiting user).length = 0 := by rw [hwait]; rfl
      simp only [waiting, Operation.after] at hnone hn ⊢
      omega
    · have hsome := List.length_pos_iff.2 (h.drain_ne_nil hwait)
      simp only [waiting, Operation.after] at hn ⊢
      omega

/-! ## Replies -/

/-- Octets that ask for the mail of a user are answered with what a drain takes. -/
theorem respond_drain {request : Octets} (h : readRequest request = .ok (.drain { user })) (b : Broker) :
    b.respond request = ((Message.mailbox (b.drain user).1).toFrame.encode, (b.drain user).2) := by
  have hanswer : b.answer request = (.mailbox (b.drain user).1, (b.drain user).2) := by
    rw [answer_eq, h]
    rfl
  rw [respond, hanswer]

/-- What a drain of a user's mailbox takes, and what becomes of it. -/
structure Drains (user : String) (b : Broker) : Prop where
  /-- It takes packets from the front; the others wait on. -/
  front : b.waiting user = (b.drain user).1 ++ (b.drain user).2.waiting user
  /-- One reply has room for them. -/
  room : ((b.drain user).1.map Packet.size).sum ≤ mailboxBudget
  /-- It has no room for more. -/
  longest : ∀ more, more <+: b.waiting user → (more.map Packet.size).sum ≤ mailboxBudget → more <+: (b.drain user).1
  /-- It takes some if any wait. -/
  progress : b.waiting user ≠ [] → (b.drain user).1 ≠ []
  /-- The packets of the others stay. -/
  others : ∀ other, other ≠ user → (b.drain user).2.waiting other = b.waiting other
  /-- As many drains as packets leave nothing. -/
  emptied : ∀ n, (b.waiting user).length ≤ n → (run (List.replicate n (.drain user)) b).waiting user = []
  /-- The reply is short enough for a frame. -/
  short : (Message.mailbox (b.drain user).1).body.length ≤ maxPayload
  /-- The frame holds what was taken. -/
  frame : ∃ o f, (Message.mailbox (b.drain user).1).toFrame.encode = .ok o ∧ Frame.decode o = .ok f ∧
    Message.ofFrame f = .ok (.mailbox (b.drain user).1)
  /-- It is what a request is answered with. -/
  reply : ∀ request, readRequest request = .ok (.drain { user }) →
    b.respond request = ((Message.mailbox (b.drain user).1).toFrame.encode, (b.drain user).2)

theorem Checked.drains (h : Checked b) (user : String) : Drains user b := by
  have hshort : (Message.mailbox (b.drain user).1).body.length ≤ maxPayload :=
    length_body_mailbox_le (fun u q hq => (h u q hq).1) user
  have hsplit := packets_drain user user b
  rw [drained, if_pos rfl] at hsplit
  constructor
  · exact hsplit
  · exact h.sum_drain_le user
  · intro more hmore hsum
    exact h.prefix_drain hmore hsum
  · exact h.drain_ne_nil
  · intro other hne
    have hother := packets_drain user other b
    rw [drained, if_neg hne] at hother
    exact hother.symm
  · intro n hn
    exact h.waiting_drains hn
  · exact hshort
  · exact Message.exists_frame hshort
  · intro request hrequest
    exact respond_drain hrequest b

/-- **Mailboxes are queues.** Whatever comes to a broker, what was routed to a user is what was drained from its mailbox,
in this order, followed by what waits there; all of it is addressed to the user; and a drain takes as much of it from
the front as one reply has room for. -/
theorem mailbox_is_queue (config : Config) (clock : Clock) (inputs : List Input) (user : String) :
    let start : Broker := { config, clock }
    let ops := inputs.filterMap Input.operation?
    receive inputs start = run ops start ∧
      gather (Operation.routedTo user) ops start =
        gather (Operation.drainedBy user) ops start ++ (receive inputs start).waiting user ∧
      (∀ packet ∈ gather (Operation.drainedBy user) ops start ++ (receive inputs start).waiting user,
        packet.recipient = user) ∧
      Drains user (receive inputs start) := by
  intro start ops
  have hrun : receive inputs start = run ops start := receive_eq_run inputs start
  have hnone : start.waiting user = [] := by
    show (Registry.of .empty user).map _ = []
    rw [Registry.of_empty]
    rfl
  have hqueue := waiting_run ops start user
  rw [hnone, List.nil_append] at hqueue
  rw [hrun]
  refine ⟨rfl, hqueue, ?_, (checked_run config clock ops).drains user⟩
  intro packet hp
  rw [← hqueue] at hp
  exact recipient_of_mem_gather hp

end CoinRelay.Broker
