import CoinRelay.Proofs.Broker.Registry
import CoinRelay.Proofs.Broker.Run

/-!
# Users are independent

What a broker keeps for a user, and what it answers to whoever asks about that user, depends on nothing that was asked
about others: leave all else out of a run (`Operation.only`), and the answers are the same and so are the user's
listings and mailbox (`users_independent`).

- `Alike`: two brokers that keep the same for a user;
- `Alike.after`, `Alike.publish_only`, `alike_after`: an operation leaves alike what was alike, a batch does so with its
  coins of the user alone, and an operation that does not concern the user does not change what is kept for it;
- `Filed.eq_of_alike`: brokers that are alike for all users are the same, so that operations on different users commute
  (`after_comm`).
-/

namespace CoinRelay.Broker

open Wire

variable {b b' : Broker} {user : String}

/-! ## Operations and users -/

/-- What a broker answers to an operation. -/
inductive Answer
  | published (result : Except BrokerError PublishAck)
  | fetched (coin : Option Coin)
  | counted (counts : Tier.Counts)
  | routed (result : Except BrokerError Unit)
  | drained (packets : List Packet)
  | purged (number : Nat)
  | set

namespace Operation

/-- The answer to an operation. -/
def answer (op : Operation) (b : Broker) : Answer :=
  match op with
  | publish coins => .published (b.publish coins).1
  | fetch user tier => .fetched (b.fetch user tier).1
  | count user => .counted (b.count user)
  | route packet => .routed (b.route packet).1
  | drain user => .drained (b.drain user).1
  | purge now => .purged (b.purge now).1
  | clock _ => .set

/-- An operation has to do with a user. Purges and the moves of the clock have to do with all. -/
def Concerns (user : String) : Operation → Prop
  | publish coins => ∃ coin ∈ coins, coin.owner = user
  | fetch other _ | count other | drain other => other = user
  | route packet => packet.recipient = user
  | purge _ | clock _ => True

/-- Two operations that have to do with different users. -/
def Apart (op other : Operation) : Prop := ∀ user, ¬(op.Concerns user ∧ other.Concerns user)

/-- What is left of an operation for one user: of a batch that is not refused, the user's coins. -/
def only (user : String) : Operation → Option Operation
  | publish coins =>
    match invalid? coins with
    | some _ => none
    | none => some (publish (coins.filter (·.owner = user)))
  | fetch other tier => if other = user then some (fetch other tier) else none
  | count other => if other = user then some (count other) else none
  | route packet => if packet.recipient = user then some (route packet) else none
  | drain other => if other = user then some (drain other) else none
  | purge now => some (purge now)
  | clock reading => some (clock reading)

/-- The answer to an operation that asks about the user alone. -/
def told (user : String) (op : Operation) (b : Broker) : List Answer :=
  match op with
  | fetch other _ | count other | drain other => if other = user then [op.answer b] else []
  | route packet => if packet.recipient = user then [op.answer b] else []
  | publish _ | purge _ | clock _ => []

/-- An operation that works on mailboxes; the others work on listings, or on the clock. -/
def OnMailboxes : Operation → Prop
  | route _ | drain _ => True
  | publish _ | fetch _ _ | count _ | purge _ | clock _ => False

/-- The reading of the clock after an operation. -/
def reading (op : Operation) (b : Broker) : Clock :=
  match op with
  | clock reading => reading
  | _ => b.clock

end Operation

/-! ## What stays -/

theorem clock_after (op : Operation) (b : Broker) : (op.after b).clock = op.reading b := by
  cases op with
  | publish coins =>
    rw [Operation.after, publish]
    split <;> rfl
  | fetch other tier =>
    rw [Operation.after, fetch]
    split <;> rfl
  | route packet =>
    rcases of_route packet b with ⟨e, -, hroute⟩ | ⟨-, hroute⟩ <;> rw [Operation.after, hroute] <;> rfl
  | count | drain | purge | clock => rfl

/-- Mailboxes and listings are changed by different operations. -/
theorem listings_after_of_onMailboxes {op : Operation} (h : op.OnMailboxes) (b : Broker) :
    (op.after b).listings = b.listings := by
  cases op with
  | route packet => exact listings_route packet b
  | drain other => rfl
  | _ => cases h

theorem mailboxes_after_of_not_onMailboxes {op : Operation} (h : ¬op.OnMailboxes) (b : Broker) :
    (op.after b).mailboxes = b.mailboxes := by
  cases op with
  | publish coins => exact mailboxes_publish coins b
  | fetch other tier => exact mailboxes_fetch other tier b
  | route packet => exact absurd trivial h
  | drain other => exact absurd trivial h
  | count | purge | clock => rfl

/-! ## Brokers that are alike -/

/-- Two brokers keep the same for a user, and are set up in the same way. -/
structure Alike (user : String) (b b' : Broker) : Prop where
  config : b.config = b'.config
  clock : b.clock = b'.clock
  listings : b.listings.of user = b'.listings.of user
  mailbox : b.mailboxes.of user = b'.mailboxes.of user

namespace Alike

variable {b'' : Broker}

theorem refl (user : String) (b : Broker) : Alike user b b := ⟨rfl, rfl, rfl, rfl⟩

theorem symm (h : Alike user b b') : Alike user b' b :=
  ⟨h.config.symm, h.clock.symm, h.listings.symm, h.mailbox.symm⟩

theorem trans (h : Alike user b b') (h' : Alike user b' b'') : Alike user b b'' :=
  ⟨h.config.trans h'.config, h.clock.trans h'.clock, h.listings.trans h'.listings, h.mailbox.trans h'.mailbox⟩

end Alike

/-! ### Publishing -/

theorem lists_congr {r r' : Registry Listing} {coin : Coin} (h : r.of coin.owner = r'.of coin.owner) :
    Lists r coin.owner coin.keyId ↔ Lists r' coin.owner coin.keyId := by
  rw [Lists, Lists, h]

/-- Which of a user's coins get listed depends on the user's listings alone. -/
theorem filter_admitted {r r' : Registry Listing} (h : r.of user = r'.of user) (now : UInt64) (coins : List Coin) :
    (admitted now r coins).filter (·.owner = user) = admitted now r' (coins.filter (·.owner = user)) := by
  induction coins generalizing r r' with
  | nil => rfl
  | cons coin coins ih =>
    by_cases hown : coin.owner = user
    · subst hown
      have hnext : (enlist now r coin).of coin.owner = (enlist now r' coin).of coin.owner := by
        rw [of_enlist, of_enlist, h]
        simp only [lists_congr h]
      rw [List.filter_cons_of_pos (by simp), admitted, admitted, List.filter_append, ih hnext]
      simp only [lists_congr h]
      congr 1
      split <;> simp
    · have hnext : (enlist now r coin).of user = r'.of user := by
        rw [of_enlist, if_neg (fun hlisted => hown hlisted.2), List.append_nil, h]
      rw [List.filter_cons_of_neg (by simp [hown]), admitted, List.filter_append, ih hnext]
      split <;> simp [hown]

/-- **A batch** changes for a user what its coins of the user change. -/
theorem Alike.publish_only {coins : List Coin} (h : Alike user b b') (hvalid : invalid? coins = none) :
    Alike user (b.publish coins).2 (b'.publish (coins.filter (·.owner = user))).2 := by
  have hown : invalid? (coins.filter (·.owner = user)) = none := by
    rw [invalid?_eq_none_iff] at hvalid ⊢
    exact fun coin hc => hvalid coin (List.mem_filter.1 hc).1
  -- The coins of others neither take the place of the user's nor make them duplicates.
  have haccepted : (b.accepted coins).filter (·.owner = user) =
      (b'.accepted (coins.filter (·.owner = user))).filter (·.owner = user) := by
    simp only [accepted, hvalid, hown]
    rw [filter_admitted h.listings, filter_admitted rfl, List.filter_filter, h.clock]
    simp only [Bool.and_self]
  constructor
  · rw [config_publish, config_publish, h.config]
  · have hclock := clock_after (.publish coins) b
    have hclock' := clock_after (.publish (coins.filter (·.owner = user))) b'
    simp only [Operation.after, Operation.reading] at hclock hclock'
    rw [hclock, hclock', h.clock]
  · rw [listings_publish, listings_publish, h.listings, haccepted, h.clock]
  · rw [mailboxes_publish, mailboxes_publish, h.mailbox]

/-- Publishing the same batch leaves alike what was alike. -/
theorem Alike.publish (h : Alike user b b') (coins : List Coin) :
    Alike user (b.publish coins).2 (b'.publish coins).2 := by
  cases hinvalid : invalid? coins with
  | some e =>
    rw [publish_of_invalid hinvalid, publish_of_invalid hinvalid]
    exact h
  | none => exact (h.publish_only hinvalid).trans ((Alike.refl user b').publish_only hinvalid).symm

/-! ### The other operations -/

theorem of_listings_fetch (other : String) (tier : Tier) (b : Broker) (user : String) :
    (b.fetch other tier).2.listings.of user =
      if user = other then
        ((dispense? b.config.dispense tier (b.listings.of user)).map (·.2)).getD (b.listings.of user)
      else b.listings.of user := by
  unfold fetch
  by_cases hu : user = other
  · subst hu
    cases dispense? b.config.dispense tier (b.listings.of user) with
    | none => simp
    | some found => simp [Registry.of_put]
  · cases dispense? b.config.dispense tier (b.listings.of other) with
    | none => simp [hu]
    | some found => simp [Registry.of_put, hu]

theorem of_mailboxes_drain (other : String) (b : Broker) (user : String) :
    (b.drain other).2.mailboxes.of user =
      if user = other then (fill mailboxBudget (b.mailboxes.of user)).2 else b.mailboxes.of user := by
  show (b.mailboxes.put other _).of user = _
  rw [Registry.of_put]
  split
  · next hu => rw [hu]
  · rfl

theorem of_mailboxes_route (packet : Packet) (b : Broker) (user : String) :
    (b.route packet).2.mailboxes.of user =
      b.mailboxes.of user ++
        if packet.check = .ok () ∧ packet.recipient = user then [{ packet, size := packet.size }] else [] := by
  rcases of_route packet b with ⟨e, hcheck, hroute⟩ | ⟨hcheck, hroute⟩
  · rw [hroute, hcheck, if_neg (fun h => by cases h.1)]
    exact (List.append_nil _).symm
  · rw [hroute, Registry.of_push]
    by_cases hu : user = packet.recipient
    · simp [hcheck, hu]
    · simp [hu, Ne.symm hu]

/-- **An operation** leaves alike what was alike. -/
theorem Alike.after (h : Alike user b b') (op : Operation) : Alike user (op.after b) (op.after b') := by
  have hclock : (op.after b).clock = (op.after b').clock := by
    rw [clock_after, clock_after]
    cases op <;> first | rfl | exact h.clock
  have hconfig : (op.after b).config = (op.after b').config := by
    rw [config_after, config_after, h.config]
  cases op with
  | publish coins => exact h.publish coins
  | fetch other tier =>
    refine ⟨hconfig, hclock, ?_, ?_⟩
    · rw [Operation.after, Operation.after, of_listings_fetch, of_listings_fetch, h.config, h.listings]
    · rw [Operation.after, Operation.after, mailboxes_fetch, mailboxes_fetch, h.mailbox]
  | route packet =>
    refine ⟨hconfig, hclock, ?_, ?_⟩
    · rw [Operation.after, Operation.after, listings_route, listings_route, h.listings]
    · rw [Operation.after, Operation.after, of_mailboxes_route, of_mailboxes_route, h.mailbox]
  | drain other =>
    refine ⟨hconfig, hclock, h.listings, ?_⟩
    rw [Operation.after, Operation.after, of_mailboxes_drain, of_mailboxes_drain, h.mailbox]
  | purge now =>
    refine ⟨hconfig, hclock, ?_, h.mailbox⟩
    show (b.listings.retain _).of user = (b'.listings.retain _).of user
    rw [Registry.of_retain, Registry.of_retain, h.listings, h.config]
  | count | clock => exact ⟨hconfig, hclock, h.listings, h.mailbox⟩

/-- **An operation that does not concern a user** changes nothing for it. -/
theorem alike_after {op : Operation} (h : ¬op.Concerns user) (b : Broker) : Alike user (op.after b) b := by
  cases op with
  | publish coins =>
    cases hinvalid : invalid? coins with
    | some e =>
      rw [Operation.after, publish_of_invalid hinvalid]
      exact .refl user b
    | none =>
      have hnone : coins.filter (·.owner = user) = [] := by
        refine List.filter_eq_nil_iff.2 fun coin hc hown => h ⟨coin, hc, ?_⟩
        exact of_decide_eq_true hown
      have honly := (Alike.refl user b).publish_only hinvalid
      rw [hnone] at honly
      exact honly
  | fetch other tier =>
    refine ⟨config_fetch other tier b, clock_after (.fetch other tier) b, ?_, ?_⟩
    · rw [Operation.after, of_listings_fetch, if_neg fun hu => h hu.symm]
    · rw [Operation.after, mailboxes_fetch]
  | route packet =>
    refine ⟨config_route packet b, clock_after (.route packet) b, ?_, ?_⟩
    · rw [Operation.after, listings_route]
    · rw [Operation.after, of_mailboxes_route, if_neg fun hu => h hu.2, List.append_nil]
  | drain other =>
    refine ⟨rfl, rfl, rfl, ?_⟩
    rw [Operation.after, of_mailboxes_drain, if_neg fun hu => h hu.symm]
  | count other => exact .refl user b
  | purge | clock => exact absurd trivial h

/-! ## Answers -/

theorem Alike.fetch (h : Alike user b b') (tier : Tier) : (b.fetch user tier).1 = (b'.fetch user tier).1 := by
  unfold Broker.fetch
  rw [h.listings, h.config]
  split <;> rfl

theorem route_congr (packet : Packet) (b b' : Broker) : (b.route packet).1 = (b'.route packet).1 := by
  unfold route
  split <;> rfl

/-- **What is told of a user** depends on what is kept for it. -/
theorem Alike.told (h : Alike user b b') (op : Operation) : op.told user b = op.told user b' := by
  cases op with
  | fetch other tier =>
    simp only [Operation.told, Operation.answer]
    by_cases hu : other = user
    · subst hu
      rw [h.fetch]
    · rw [if_neg hu, if_neg hu]
  | count other =>
    simp only [Operation.told, Operation.answer]
    by_cases hu : other = user
    · subst hu
      rw [count, count, h.listings]
    · rw [if_neg hu, if_neg hu]
  | route packet =>
    simp only [Operation.told, Operation.answer]
    rw [route_congr packet b b']
  | drain other =>
    simp only [Operation.told, Operation.answer]
    by_cases hu : other = user
    · subst hu
      rw [drain, drain, h.mailbox]
    · rw [if_neg hu, if_neg hu]
  | publish | purge | clock => rfl

/-! ## Runs -/

/-- Operations that are left out tell nothing of the user and change nothing for it; the others do what they did. -/
theorem Alike.only (h : Alike user b b') (op : Operation) :
    gather (Operation.told user) (op.only user).toList b' = op.told user b ∧
      Alike user (op.after b) (run (op.only user).toList b') := by
  have hkept : op.only user = some op →
      gather (Operation.told user) (op.only user).toList b' = op.told user b ∧
        Alike user (op.after b) (run (op.only user).toList b') := by
    intro hop
    rw [hop]
    exact ⟨(List.append_nil _).trans (h.told op).symm, h.after op⟩
  have hleft : op.only user = none → op.told user b = [] → ¬op.Concerns user →
      gather (Operation.told user) (op.only user).toList b' = op.told user b ∧
        Alike user (op.after b) (run (op.only user).toList b') := by
    intro hop htold hnot
    rw [hop, htold]
    exact ⟨rfl, (alike_after hnot b).trans h⟩
  cases op with
  | publish coins =>
    cases hinvalid : invalid? coins with
    | some e =>
      have hnone : (Operation.publish coins).only user = none := by rw [Operation.only, hinvalid]
      rw [hnone, Operation.after, publish_of_invalid hinvalid]
      exact ⟨rfl, h⟩
    | none =>
      have hsome : (Operation.publish coins).only user = some (.publish (coins.filter (·.owner = user))) := by
        rw [Operation.only, hinvalid]
      rw [hsome]
      exact ⟨rfl, h.publish_only hinvalid⟩
  | fetch other tier =>
    by_cases hu : other = user
    · exact hkept (if_pos hu)
    · exact hleft (if_neg hu) (if_neg hu) hu
  | count other =>
    by_cases hu : other = user
    · exact hkept (if_pos hu)
    · exact hleft (if_neg hu) (if_neg hu) hu
  | route packet =>
    by_cases hu : packet.recipient = user
    · exact hkept (if_pos hu)
    · exact hleft (if_neg hu) (if_neg hu) hu
  | drain other =>
    by_cases hu : other = user
    · exact hkept (if_pos hu)
    · exact hleft (if_neg hu) (if_neg hu) hu
  | purge now => exact hkept rfl
  | clock reading => exact hkept rfl

/-- **A run** from which all is left out that does not concern a user tells the same of it. -/
theorem Alike.run_only (h : Alike user b b') (ops : List Operation) :
    gather (Operation.told user) (ops.filterMap (·.only user)) b' = gather (Operation.told user) ops b ∧
      Alike user (run ops b) (run (ops.filterMap (·.only user)) b') := by
  induction ops generalizing b b' with
  | nil => exact ⟨rfl, h⟩
  | cons op ops ih =>
    obtain ⟨htold, halike⟩ := h.only op
    obtain ⟨hrest, hend⟩ := ih halike
    have hsplit : (op :: ops).filterMap (·.only user) = (op.only user).toList ++ ops.filterMap (·.only user) := by
      rw [List.filterMap_cons]
      cases op.only user <;> rfl
    rw [hsplit, gather_append, run_append, gather, htold, hrest]
    exact ⟨rfl, hend⟩

/-! ## Operations that commute -/

/-- No user is kept without listings, or with a mailbox without packets. -/
structure Filed (b : Broker) : Prop where
  listings : b.listings.Filed
  mailboxes : b.mailboxes.Filed

theorem filed_enlist {r : Registry Listing} (h : r.Filed) (now : UInt64) (coin : Coin) : (enlist now r coin).Filed := by
  unfold enlist
  split
  · exact h
  · exact h.push coin.owner _

/-- **A batch** leaves nobody without listings who was entered for a duplicate. -/
theorem filed_publish {b : Broker} (h : b.listings.Filed) (coins : List Coin) : (b.publish coins).2.listings.Filed := by
  cases hinvalid : invalid? coins with
  | some e =>
    rw [publish_of_invalid hinvalid]
    exact h
  | none =>
    rw [publish_of_valid hinvalid]
    exact enlistAll_induction (fun coin _ _ hr => filed_enlist hr b.clock.now coin) h

namespace Filed

theorem after (h : Filed b) (op : Operation) : Filed (op.after b) := by
  cases op with
  | publish coins =>
    refine ⟨filed_publish h.listings coins, ?_⟩
    · rw [Operation.after, mailboxes_publish]
      exact h.mailboxes
  | fetch other tier =>
    refine ⟨?_, ?_⟩
    · rw [Operation.after, fetch]
      split
      · exact h.listings
      · exact h.listings.put other _
    · rw [Operation.after, mailboxes_fetch]
      exact h.mailboxes
  | route packet =>
    refine ⟨?_, ?_⟩
    · rw [Operation.after, listings_route]
      exact h.listings
    · rcases of_route packet b with ⟨e, -, hroute⟩ | ⟨-, hroute⟩ <;> rw [Operation.after, hroute]
      · exact h.mailboxes
      · exact h.mailboxes.push packet.recipient _
  | drain other => exact ⟨h.listings, h.mailboxes.put other _⟩
  | purge now => exact ⟨.retain _ b.listings, h.mailboxes⟩
  | count => exact h
  | clock => exact ⟨h.listings, h.mailboxes⟩

/-- **Brokers that are alike for all users** are the same. -/
theorem eq_of_alike (h : Filed b) (h' : Filed b') (halike : ∀ user, Alike user b b') : b = b' := by
  have hlistings := h.listings.ext h'.listings fun user => (halike user).listings
  have hmailboxes := h.mailboxes.ext h'.mailboxes fun user => (halike user).mailbox
  have hconfig := (halike "").config
  have hclock := (halike "").clock
  cases b
  cases b'
  cases hlistings
  cases hmailboxes
  cases hconfig
  cases hclock
  rfl

end Filed

theorem filed_run (config : Config) (clock : Clock) (ops : List Operation) : Filed (run ops { config, clock }) :=
  List.foldlRecOn ops _ ⟨.empty, .empty⟩ fun _ hb op _ => hb.after op

theorem admitted_congr {r r' : Registry Listing} (now : UInt64) {coins : List Coin}
    (h : ∀ coin ∈ coins, r.of coin.owner = r'.of coin.owner) : admitted now r coins = admitted now r' coins := by
  induction coins generalizing r r' with
  | nil => rfl
  | cons coin coins ih =>
    obtain ⟨hcoin, hcoins⟩ := List.forall_mem_cons.1 h
    have hnext : ∀ other ∈ coins, (enlist now r coin).of other.owner = (enlist now r' coin).of other.owner := by
      intro other ho
      rw [of_enlist, of_enlist, hcoins other ho]
      simp only [lists_congr hcoin]
    rw [admitted, admitted, ih hnext]
    simp only [lists_congr hcoin]

theorem publish_congr {coins : List Coin} (h : ∀ coin ∈ coins, Alike coin.owner b b') :
    (b.publish coins).1 = (b'.publish coins).1 := by
  cases coins with
  | nil => rfl
  | cons first rest =>
    have hclock := (h first List.mem_cons_self).clock
    have hadmitted := admitted_congr b'.clock.now fun coin hc => (h coin hc).listings
    cases hinvalid : invalid? (first :: rest) with
    | some e => rw [publish_of_invalid hinvalid, publish_of_invalid hinvalid]
    | none => rw [publish_of_valid hinvalid, publish_of_valid hinvalid, hclock, hadmitted]

/-- The answer to an operation depends on what is kept for the users that it has to do with. -/
theorem answer_congr {op : Operation} (hb : Filed b) (hb' : Filed b')
    (h : ∀ user, op.Concerns user → Alike user b b') : op.answer b = op.answer b' := by
  cases op with
  | publish coins => exact congrArg Answer.published (publish_congr fun coin hc => h coin.owner ⟨coin, hc, rfl⟩)
  | fetch other tier => exact congrArg Answer.fetched ((h other rfl).fetch tier)
  | count other => rw [Operation.answer, Operation.answer, count, count, (h other rfl).listings]
  | route packet => exact congrArg Answer.routed (route_congr packet b b')
  | drain other => rw [Operation.answer, Operation.answer, drain, drain, (h other rfl).mailbox]
  | purge now => rw [hb.eq_of_alike hb' fun user => h user trivial]
  | clock reading => rfl

/-- What operations on different users leave does not depend on which comes first. -/
theorem after_comm (hb : Filed b) {op other : Operation} (h : op.Apart other) :
    other.after (op.after b) = op.after (other.after b) := by
  refine ((hb.after op).after other).eq_of_alike ((hb.after other).after op) fun user => ?_
  by_cases hother : other.Concerns user
  · have hop : ¬op.Concerns user := fun hop => h user ⟨hop, hother⟩
    exact ((alike_after hop b).after other).trans (alike_after hop (other.after b)).symm
  · exact (alike_after hother (op.after b)).trans ((alike_after hother b).after op).symm

/-- The answer to an operation does not depend on one for different users. -/
theorem answer_after (hb : Filed b) {op other : Operation} (h : op.Apart other) :
    op.answer (other.after b) = op.answer b :=
  answer_congr (hb.after other) hb fun user hop => alike_after (fun hother => h user ⟨hop, hother⟩) b

theorem Operation.Apart.symm {op other : Operation} (h : op.Apart other) : other.Apart op :=
  fun user hboth => h user hboth.symm

/-- **Users are independent.** Leave out of a run all that does not concern a user, and of each batch the coins of the
others: the rest is answered as before and leaves the same listings and mailbox. Operations that concern different
users commute, and those on mailboxes leave the listings as they are and the other way round. -/
theorem users_independent (config : Config) (clock : Clock) (ops : List Operation) :
    let start : Broker := { config, clock }
    (∀ user, let own := ops.filterMap (·.only user)
      gather (Operation.told user) own start = gather (Operation.told user) ops start ∧
        (run own start).listings.of user = (run ops start).listings.of user ∧
        (run own start).mailboxes.of user = (run ops start).mailboxes.of user) ∧
      (∀ op other : Operation, op.Apart other →
        run (ops ++ [op, other]) start = run (ops ++ [other, op]) start ∧
          op.answer (other.after (run ops start)) = op.answer (run ops start) ∧
          other.answer (op.after (run ops start)) = other.answer (run ops start)) ∧
      ∀ (op : Operation) (b : Broker),
        (op.OnMailboxes → (op.after b).listings = b.listings) ∧
          (¬op.OnMailboxes → (op.after b).mailboxes = b.mailboxes) := by
  intro start
  have hfiled : Filed (run ops start) := filed_run config clock ops
  refine ⟨fun user => ?_, fun op other hapart => ⟨?_, ?_, ?_⟩, fun op b => ⟨?_, ?_⟩⟩
  · obtain ⟨htold, halike⟩ := (Alike.refl user start).run_only ops
    exact ⟨htold, halike.listings.symm, halike.mailbox.symm⟩
  · rw [run_append, run_append]
    exact after_comm hfiled hapart
  · exact answer_after hfiled hapart
  · exact answer_after hfiled hapart.symm
  · intro h
    exact listings_after_of_onMailboxes h b
  · intro h
    exact mailboxes_after_of_not_onMailboxes h b

end CoinRelay.Broker
