import CoinRelay.Proofs.Broker.Outstanding

/-!
# Runs of a broker

Operations on a broker one after the other (`run`), and what can be told of them from outside: `gather` puts together
what each operation of a run brings.

- `Operation.accepted`, `Operation.acks`: the coins that get listed, and how a batch is acknowledged;
- `Operation.granted`, `Operation.grantedTo`: the coins that are handed out, to anyone and for one user and tier;
- `Operation.dropped`, `Operation.withdrawn`: how many listings a purge drops, and which ones of a user;
- `Input`, `receive_eq_run`: messages and octets come down to the operations that they ask for.
-/

namespace CoinRelay.Broker

open Wire

variable {α : Type}

/-- The broker after operations, one after the other. -/
def run (ops : List Operation) (b : Broker) : Broker := ops.foldl (fun b op => op.after b) b

theorem run_append (ops more : List Operation) (b : Broker) : run (ops ++ more) b = run more (run ops b) :=
  List.foldl_append

/-- What the operations of a run bring, each on the broker that those before it left. -/
def gather (f : Operation → Broker → List α) : List Operation → Broker → List α
  | [], _ => []
  | op :: ops, b => f op b ++ gather f ops (op.after b)

theorem gather_append (f : Operation → Broker → List α) (ops more : List Operation) (b : Broker) :
    gather f (ops ++ more) b = gather f ops b ++ gather f more (run ops b) := by
  induction ops generalizing b with
  | nil => rfl
  | cons op ops ih =>
    rw [List.cons_append, gather, gather, ih, List.append_assoc]
    rfl

theorem gather_concat (f : Operation → Broker → List α) (ops : List Operation) (op : Operation) (b : Broker) :
    gather f (ops ++ [op]) b = gather f ops b ++ f op (run ops b) := by
  rw [gather_append, gather, gather, List.append_nil]

/-! ## What stays -/

theorem config_after (op : Operation) (b : Broker) : (op.after b).config = b.config := by
  cases op with
  | publish coins => exact config_publish coins b
  | fetch user tier => exact config_fetch user tier b
  | route packet => exact config_route packet b
  | count | drain | purge | clock => rfl

theorem config_run (ops : List Operation) (b : Broker) : (run ops b).config = b.config := by
  induction ops generalizing b with
  | nil => rfl
  | cons op ops ih => exact (ih (op.after b)).trans (config_after op b)

theorem listings_route (packet : Packet) (b : Broker) : (b.route packet).2.listings = b.listings := by
  rcases of_route packet b with ⟨e, -, hroute⟩ | ⟨-, hroute⟩ <;> rw [hroute]

/-! ## What can be told -/

namespace Operation

/-- The coins that an operation lists. -/
def accepted : Operation → Broker → List Coin
  | publish coins, b => b.accepted coins
  | _, _ => []

/-- The acknowledgement of a batch that is not refused. -/
def acks : Operation → Broker → List PublishAck
  | publish coins, b => (b.publish coins).1.toOption.toList
  | _, _ => []

/-- The coin that an operation hands out. -/
def granted : Operation → Broker → List Coin
  | fetch user tier, b => (b.fetch user tier).1.toList
  | _, _ => []

/-- The coin that an operation hands out when it asks for a coin of a user and a tier. -/
def grantedTo (user : String) (tier : Tier) (op : Operation) (b : Broker) : List Coin :=
  if op = fetch user tier then (b.fetch user tier).1.toList else []

theorem grantedTo_self (user : String) (tier : Tier) (b : Broker) :
    (fetch user tier).grantedTo user tier b = (b.fetch user tier).1.toList := if_pos rfl

theorem grantedTo_of_ne {user other : String} {tier level : Tier} (h : ¬(other = user ∧ level = tier)) (b : Broker) :
    (fetch other level).grantedTo user tier b = [] := by
  refine if_neg fun hop => h ?_
  cases hop
  exact ⟨rfl, rfl⟩

/-- A fetch that finds nothing hands out nothing. -/
theorem grantedTo_of_none {other : String} {level : Tier} {b : Broker} (h : (b.fetch other level).1 = none)
    (user : String) (tier : Tier) : (fetch other level).grantedTo user tier b = [] := by
  by_cases hsame : other = user ∧ level = tier
  · obtain ⟨rfl, rfl⟩ := hsame
    rw [grantedTo_self, h]
    rfl
  · exact grantedTo_of_ne hsame b

/-- The number of listings that a purge tells to have dropped. -/
def dropped : Operation → Broker → List Nat
  | purge now, b => [(b.purge now).1]
  | _, _ => []

/-- The listings of a user that a purge leaves out. -/
def withdrawn (user : String) : Operation → Broker → List Listing
  | purge now, b => (b.listings.of user).filter (· ∉ (b.purge now).2.listings.of user)
  | _, _ => []

end Operation

/-! ## Counters -/

/-- The 32-bit counters of the acknowledgements hold the numbers of accepted coins. -/
def CountersFit : List Operation → Broker → Prop
  | [], _ => True
  | op :: ops, b => (op.accepted b).length < UInt32.size ∧ CountersFit ops (op.after b)

theorem countersFit_of_forall_length {ops : List Operation} (h : ∀ op ∈ ops, op.coins.length < UInt32.size)
    (b : Broker) : CountersFit ops b := by
  induction ops generalizing b with
  | nil => trivial
  | cons op ops ih =>
    obtain ⟨hop, hops⟩ := List.forall_mem_cons.1 h
    refine ⟨Nat.lt_of_le_of_lt ?_ hop, ih hops (op.after b)⟩
    cases op with
    | publish coins => exact (accepted_sublist coins b).1.length_le
    | _ => exact Nat.zero_le _

/-- An operation acknowledges the number of coins that it lists. -/
theorem sum_acks_operation {op : Operation} {b : Broker} (h : (op.accepted b).length < UInt32.size) :
    ((op.acks b).map (·.accepted.toNat)).sum = (op.accepted b).length := by
  cases op with
  | publish coins =>
    simp only [Operation.acks, Operation.accepted] at h ⊢
    rcases accepted_publish coins b with ⟨e, hpublish, hnone⟩ | ⟨ack, hpublish, hack⟩
    · rw [hpublish, hnone]
      rfl
    · rw [hpublish]
      show ack.accepted.toNat + 0 = _
      rw [hack, Nat.add_zero, UInt32.toNat_ofNat_of_lt' h]
  | _ => rfl

/-- **The acknowledgements add up** to the number of coins that were listed. -/
theorem sum_acks {ops : List Operation} {b : Broker} (h : CountersFit ops b) :
    ((gather Operation.acks ops b).map (·.accepted.toNat)).sum = (gather Operation.accepted ops b).length := by
  induction ops generalizing b with
  | nil => rfl
  | cons op ops ih =>
    rw [gather, gather, List.map_append, List.sum_append, List.length_append, sum_acks_operation h.1, ih h.2]

/-! ## Messages and octets -/

/-- What comes to a broker: an operation, a message, or octets that should hold a request. -/
inductive Input
  | operation (op : Operation)
  | message (m : Message)
  | octets (o : Octets)
  deriving DecidableEq, Repr

namespace Input

/-- The broker after an input. -/
def after (i : Input) (b : Broker) : Broker :=
  match i with
  | operation op => op.after b
  | message m => (b.handle m).2
  | octets o => (b.respond o).2

/-- The operation that an input asks for, if it asks for one. -/
def operation? : Input → Option Operation
  | operation op => some op
  | message m => Operation.ofMessage? m
  | octets o => (readRequest o).toOption.bind Operation.ofMessage?

theorem after_eq (i : Input) (b : Broker) : i.after b = i.operation?.elim b fun op => op.after b := by
  cases i with
  | operation op => rfl
  | message m => exact Operation.handle_snd m b
  | octets o =>
    show (b.answer o).2 = _
    rw [answer_eq, operation?]
    cases readRequest o with
    | error e => rfl
    | ok m => exact Operation.handle_snd m b

end Input

/-- The broker after inputs, one after the other. -/
def receive (inputs : List Input) (b : Broker) : Broker := inputs.foldl (fun b i => i.after b) b

/-- **What comes to a broker** has the effect of the operations that it asks for. -/
theorem receive_eq_run (inputs : List Input) (b : Broker) :
    receive inputs b = run (inputs.filterMap Input.operation?) b := by
  induction inputs generalizing b with
  | nil => rfl
  | cons i inputs ih =>
    have hafter := i.after_eq b
    have hrest := ih (i.after b)
    show receive inputs (i.after b) = _
    rw [hrest, List.filterMap_cons, hafter]
    cases i.operation? with
    | none => rfl
    | some op => rfl

end CoinRelay.Broker
