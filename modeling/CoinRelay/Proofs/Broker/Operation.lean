import CoinRelay.Broker.Reply
import CoinRelay.Proofs.Broker.Publishing
import Mathlib.Algebra.Order.Ring.Nat

/-!
# Operations on a broker

The six operations and the moves of the clock as data (`Operation`), and what each does to the listings and to the
mailbox of one user.

- `dispense?_eq_some`, `of_fetch`: the first listing of the tier is marked or taken out;
- `Registry.of_retain` says it for a purge; `of_route`, `fill_append` for the mailboxes;
- `Operation.mem_listings_after`, `Operation.mem_mailboxes_after`: where what is there after an operation comes from;
- `handle_snd`: a message does what the operation that it asks for does, and a reply does nothing.
-/

namespace CoinRelay.Broker

open Wire

variable {b : Broker} {user : String}

/-! ## Fetching -/

theorem dispense?_of_forall_ne {d : Dispense} {tier : Tier} {ls : List Listing} (h : ∀ l ∈ ls, l.coin.tier ≠ tier) :
    dispense? d tier ls = none := by
  induction ls with
  | nil => rfl
  | cons l ls ih =>
    obtain ⟨hl, hls⟩ := List.forall_mem_cons.1 h
    unfold dispense?
    rw [if_neg hl, ih hls]
    rfl

/-- What is listed once the first listing of a tier is dispensed: it is marked or left out. -/
def remaining (d : Dispense) (l : Listing) (after : List Listing) : List Listing :=
  match d with
  | .shared => { l with dispensed := true } :: after
  | .singleUse => after

theorem dispense?_append {d : Dispense} {tier : Tier} {before after : List Listing} {l : Listing}
    (h : ∀ m ∈ before, m.coin.tier ≠ tier) (hl : l.coin.tier = tier) :
    dispense? d tier (before ++ l :: after) = some (l.coin, before ++ remaining d l after) := by
  induction before with
  | nil =>
    rw [List.nil_append]
    unfold dispense?
    rw [if_pos hl]
    cases d <;> rfl
  | cons m before ih =>
    obtain ⟨hm, hbefore⟩ := List.forall_mem_cons.1 h
    rw [List.cons_append]
    unfold dispense?
    rw [if_neg hm, ih hbefore]
    rfl

/-- **Dispensing** takes the first listing of the tier: it is marked or left out. -/
theorem dispense?_eq_some {d : Dispense} {tier : Tier} {ls ls' : List Listing} {coin : Coin}
    (h : dispense? d tier ls = some (coin, ls')) :
    ∃ before l after, ls = before ++ l :: after ∧ (∀ m ∈ before, m.coin.tier ≠ tier) ∧ l.coin = coin ∧
      coin.tier = tier ∧ ls' = before ++ remaining d l after := by
  induction ls generalizing ls' with
  | nil => cases h
  | cons m ls ih =>
    unfold dispense? at h
    split at h
    · next ht =>
      refine ⟨[], m, ls, rfl, by simp, ?_⟩
      cases d <;> cases h <;> exact ⟨rfl, ht, rfl⟩
    · next ht =>
      obtain ⟨⟨coin', rest⟩, hrest, heq⟩ := Option.map_eq_some_iff.1 h
      cases heq
      obtain ⟨before, l, after, rfl, hbefore, hcoin, htier, rfl⟩ := ih hrest
      refine ⟨m :: before, l, after, rfl, fun n hn => ?_, hcoin, htier, rfl⟩
      rcases List.mem_cons.1 hn with rfl | hn
      · exact ht
      · exact hbefore n hn

/-- What is listed after dispensing was listed before, marked or not. -/
theorem mem_of_dispense? {d : Dispense} {tier : Tier} {ls ls' : List Listing} {coin : Coin}
    (h : dispense? d tier ls = some (coin, ls')) {l : Listing} (hl : l ∈ ls') : ∃ old ∈ ls, l.coin = old.coin := by
  obtain ⟨before, m, rest, rfl, -, -, -, rfl⟩ := dispense?_eq_some h
  rcases List.mem_append.1 hl with hl | hl
  · exact ⟨l, List.mem_append_left _ hl, rfl⟩
  · cases d with
    | shared =>
      rcases List.mem_cons.1 hl with rfl | hl
      · exact ⟨m, by simp, rfl⟩
      · exact ⟨l, by simp [hl], rfl⟩
    | singleUse => exact ⟨l, by simp [show l ∈ rest from hl], rfl⟩

theorem fetch_eq_none {tier : Tier} (h : (b.fetch user tier).1 = none) : (b.fetch user tier).2 = b := by
  unfold fetch at h ⊢
  split at h
  · rfl
  · cases h

/-- **Fetching** dispenses from the listings of the user and leaves the others alone. -/
theorem of_fetch {tier : Tier} {coin : Coin} (h : (b.fetch user tier).1 = some coin) :
    ∃ ls, dispense? b.config.dispense tier (b.listings.of user) = some (coin, ls) ∧
      (b.fetch user tier).2 = { b with listings := b.listings.put user ls } := by
  unfold fetch at h ⊢
  split at h
  · cases h
  · next ls hd =>
    cases h
    exact ⟨ls, hd, rfl⟩

/-- A fetch finds nothing and changes nothing, or it dispenses the first listing of the tier. -/
theorem fetch_cases (user : String) (tier : Tier) (b : Broker) :
    b.fetch user tier = (none, b) ∨
      ∃ before l after, b.listings.of user = before ++ l :: after ∧ (∀ m ∈ before, m.coin.tier ≠ tier) ∧
        l.coin.tier = tier ∧ b.fetch user tier = (some l.coin,
          { b with listings := b.listings.put user (before ++ remaining b.config.dispense l after) }) := by
  unfold fetch
  cases hd : dispense? b.config.dispense tier (b.listings.of user) with
  | none => exact .inl rfl
  | some found =>
    obtain ⟨coin, ls⟩ := found
    obtain ⟨before, l, after, hof, hbefore, rfl, htier, rfl⟩ := dispense?_eq_some hd
    exact .inr ⟨before, l, after, hof, hbefore, htier, rfl⟩

theorem fetch_of_forall_ne {tier : Tier} (h : ∀ l ∈ b.listings.of user, l.coin.tier ≠ tier) :
    b.fetch user tier = (none, b) := by
  unfold fetch
  rw [dispense?_of_forall_ne h]

theorem fetch_of_append {tier : Tier} {before after : List Listing} {l : Listing}
    (hof : b.listings.of user = before ++ l :: after) (h : ∀ m ∈ before, m.coin.tier ≠ tier)
    (hl : l.coin.tier = tier) :
    b.fetch user tier = (some l.coin,
      { b with listings := b.listings.put user (before ++ remaining b.config.dispense l after) }) := by
  unfold fetch
  rw [hof, dispense?_append h hl]

/-! ## Mailboxes -/

/-- **Routing** refuses a packet or puts it behind those that wait for its recipient. -/
theorem of_route (packet : Packet) (b : Broker) :
    (∃ e, packet.check = .error e ∧ b.route packet = (.error (.invalidPacket e), b)) ∨
      (packet.check = .ok () ∧ b.route packet =
        (.ok (), { b with mailboxes := b.mailboxes.push packet.recipient { packet, size := packet.size } })) := by
  unfold route
  cases h : packet.check with
  | error e => exact .inl ⟨e, rfl, rfl⟩
  | ok =>
    refine .inr ⟨rfl, ?_⟩
    simp only [Registry.push_enter]

/-- The packets taken and the others are those that waited, and their lengths fit the budget. -/
theorem fill_append (budget : Nat) (qs : List Queued) :
    ∃ taken, qs = taken ++ (fill budget qs).2 ∧ (fill budget qs).1 = taken.map (·.packet) ∧
      (taken.map (·.size)).sum ≤ budget := by
  induction qs generalizing budget with
  | nil => exact ⟨[], rfl, rfl, Nat.zero_le _⟩
  | cons q qs ih =>
    unfold fill
    split
    · next hq =>
      obtain ⟨taken, hqs, htaken, hsum⟩ := ih (budget - q.size)
      refine ⟨q :: taken, ?_, ?_, ?_⟩
      · exact congrArg (q :: ·) hqs
      · exact congrArg (q.packet :: ·) htaken
      · rw [List.map_cons, List.sum_cons]
        omega
    · exact ⟨[], rfl, rfl, Nat.zero_le _⟩

/-! ## Operations as data -/

/-- What a broker is asked to do, and the moves of its clock. -/
inductive Operation
  | publish (coins : List Coin)
  | fetch (user : String) (tier : Tier)
  | count (user : String)
  | route (packet : Packet)
  | drain (user : String)
  | purge (now : UInt64)
  | clock (reading : Clock)
  deriving DecidableEq, Repr

namespace Operation

/-- The broker after an operation. -/
def after (op : Operation) (b : Broker) : Broker :=
  match op with
  | publish coins => (b.publish coins).2
  | fetch user tier => (b.fetch user tier).2
  | count _ => b
  | route packet => (b.route packet).2
  | drain user => (b.drain user).2
  | purge now => (b.purge now).2
  | clock reading => { b with clock := reading }

/-- The operation that a message asks for. A reply asks for none. -/
def ofMessage? : Message → Option Operation
  | .publish coins => some (publish coins)
  | .fetch request => some (fetch request.user request.tier)
  | .send packet => some (route packet)
  | .drain request => some (drain request.user)
  | .count request => some (count request.user)
  | _ => none

/-- The coins that an operation lists. -/
def coins : Operation → List Coin
  | publish coins => coins
  | _ => []

/-- A listing after an operation was there before, marked or not, or its coin is one of those published. -/
theorem mem_listings_after {op : Operation} {l : Listing} (h : l ∈ (op.after b).listings.of user) :
    (∃ old ∈ b.listings.of user, l.coin = old.coin) ∨
      l.coin ∈ op.coins ∧ l.coin.owner = user ∧ l.coin.check = .ok () := by
  cases op with
  | publish coins =>
    obtain ⟨new, hsub, hvalid, hof⟩ := of_publish coins b user
    rw [after, hof] at h
    rcases List.mem_append.1 h with h | h
    · exact .inl ⟨l, h, rfl⟩
    · obtain ⟨coin, hc, rfl⟩ := List.mem_map.1 h
      obtain ⟨hmem, hown⟩ := List.mem_filter.1 (hsub.subset hc)
      exact .inr ⟨hmem, of_decide_eq_true hown, hvalid coin hc⟩
  | fetch u tier =>
    rw [after] at h
    cases hf : (b.fetch u tier).1 with
    | none => exact .inl ⟨l, fetch_eq_none hf ▸ h, rfl⟩
    | some coin =>
      obtain ⟨ls, hd, hb⟩ := of_fetch hf
      rw [hb, Registry.of_put] at h
      split at h
      · next hu =>
        subst hu
        exact .inl (mem_of_dispense? hd h)
      · exact .inl ⟨l, h, rfl⟩
  | purge now =>
    rw [after, Broker.purge, Registry.of_retain] at h
    exact .inl ⟨l, (List.mem_filter.1 h).1, rfl⟩
  | route packet =>
    rw [after] at h
    rcases of_route packet b with ⟨_, -, hb⟩ | ⟨-, hb⟩ <;> rw [hb] at h <;> exact .inl ⟨l, h, rfl⟩
  | count | drain | clock => exact .inl ⟨l, h, rfl⟩

/-- A packet that waits after an operation waited before, or it is the one routed. -/
theorem mem_mailboxes_after {op : Operation} {q : Queued} (h : q ∈ (op.after b).mailboxes.of user) :
    q ∈ b.mailboxes.of user ∨ q.size = q.packet.size ∧ q.packet.recipient = user ∧ q.packet.check = .ok () := by
  cases op with
  | publish coins =>
    rw [after, mailboxes_publish] at h
    exact .inl h
  | fetch u tier =>
    rw [after] at h
    cases hf : (b.fetch u tier).1 with
    | none => exact .inl (fetch_eq_none hf ▸ h)
    | some coin =>
      obtain ⟨ls, -, hb⟩ := of_fetch hf
      rw [hb] at h
      exact .inl h
  | route packet =>
    rw [after] at h
    rcases of_route packet b with ⟨_, -, hb⟩ | ⟨hcheck, hb⟩ <;> rw [hb] at h
    · exact .inl h
    · rw [Registry.of_push] at h
      split at h
      · next hu =>
        rcases List.mem_append.1 h with h | h
        · exact .inl (hu ▸ h)
        · cases List.mem_singleton.1 h
          exact .inr ⟨rfl, hu.symm, hcheck⟩
      · exact .inl h
  | drain u =>
    obtain ⟨taken, hqs, -⟩ := fill_append mailboxBudget (b.mailboxes.of u)
    rw [after, Broker.drain, Registry.of_put] at h
    split at h
    · next hu =>
      rw [hu, hqs]
      exact .inl (List.mem_append_right _ h)
    · exact .inl h
  | count | purge | clock => exact .inl h

/-- A message does what the operation that it asks for does. -/
theorem handle_snd (request : Message) (b : Broker) :
    (b.handle request).2 = (ofMessage? request).elim b fun op => op.after b := by
  cases request with
  | publish coins =>
    simp only [handle, ofMessage?, Option.elim_some, after]
    cases b.publish coins with
    | mk result b' => cases result <;> rfl
  | fetch request =>
    simp only [handle, ofMessage?, Option.elim_some, after]
    cases b.fetch request.user request.tier with
    | mk coin b' => cases coin <;> rfl
  | send packet =>
    simp only [handle, ofMessage?, Option.elim_some, after]
    cases b.route packet with
    | mk result b' => cases result <;> rfl
  | _ => rfl

end Operation

/-! ## Octets -/

/-- What octets ask for, if they hold a request. -/
def readRequest (octets : Octets) : Except ProtocolError Message := (Frame.decode octets).bind Message.ofFrame

theorem answer_eq (octets : Octets) (b : Broker) :
    b.answer octets = match readRequest octets with
      | .ok request => b.handle request
      | .error e => (refuse e.message, b) := by
  unfold answer readRequest
  cases Frame.decode octets with
  | error e => rfl
  | ok f => rfl

end CoinRelay.Broker
