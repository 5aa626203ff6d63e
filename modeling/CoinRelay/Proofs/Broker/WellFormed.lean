import CoinRelay.Proofs.Broker.Independent
import CoinRelay.Proofs.Broker.Mailbox
import CoinRelay.Proofs.Relay.Custody

/-!
# Well-formed brokers

What a broker keeps is well-formed at all times (`WellFormed`): nobody is kept without listings or packets, what is kept
for a user is the user's own and valid, and no identifier is listed twice.

- `Proper`: the listings of one user; `Proper.append`, `Proper.sublist` and `Proper.remaining` say what they keep to when a
  coin is listed, when listings are left out and when one is dispensed;
- `WellFormed.after`: every operation leaves a broker well-formed;
- `WellFormed.of_fetch_eq_some`, `WellFormed.fetchOne_eq`: a fetch hands out what it is asked for, so that a ledger never
  has to drop an answer;
- `wellFormed_receive`: what holds after any inputs.
-/

namespace CoinRelay.Broker

open Wire

variable {b : Broker} {user : String}

/-! ## The listings of a user -/

/-- Listings of a user under a way to dispense. -/
structure Proper (d : Dispense) (user : String) (ls : List Listing) : Prop where
  /-- The coins are the user's. -/
  owner_eq : ∀ l ∈ ls, l.coin.owner = user
  /-- The coins are valid. -/
  valid : ∀ l ∈ ls, l.coin.check = .ok ()
  /-- No identifier is listed twice, of whatever tiers the coins are. -/
  nodup : (ls.map (·.coin.keyId)).Nodup
  /-- Only a broker that shares its coins marks any. -/
  unmarked : d = .singleUse → ∀ l ∈ ls, l.dispensed = false

namespace Proper

variable {d : Dispense} {ls : List Listing}

theorem nil (d : Dispense) (user : String) : Proper d user [] := by
  constructor
  · intro l hl
    cases hl
  · intro l hl
    cases hl
  · exact List.nodup_nil
  · intro _ l hl
    cases hl

/-- Listings may be left out. -/
theorem sublist {more : List Listing} (h : Proper d user more) (hsub : ls.Sublist more) : Proper d user ls := by
  constructor
  · intro l hl
    exact h.owner_eq l (hsub.subset hl)
  · intro l hl
    exact h.valid l (hsub.subset hl)
  · exact h.nodup.sublist (hsub.map _)
  · intro hd l hl
    exact h.unmarked hd l (hsub.subset hl)

/-- A valid coin may be listed under an identifier that is not listed yet. -/
theorem append {coin : Coin} (h : Proper d coin.owner ls) (hvalid : coin.check = .ok ())
    (hnew : ∀ l ∈ ls, l.coin.keyId ≠ coin.keyId) (now : UInt64) :
    Proper d coin.owner (ls ++ [listing now coin]) := by
  constructor
  · intro l hl
    rcases List.mem_append.1 hl with hl | hl
    · exact h.owner_eq l hl
    · cases List.mem_singleton.1 hl
      rfl
  · intro l hl
    rcases List.mem_append.1 hl with hl | hl
    · exact h.valid l hl
    · cases List.mem_singleton.1 hl
      exact hvalid
  · rw [List.map_append, List.nodup_append]
    refine ⟨h.nodup, List.nodup_singleton _, ?_⟩
    intro keyId hold other hother
    obtain ⟨l, hl, rfl⟩ := List.mem_map.1 hold
    cases List.mem_singleton.1 hother
    exact hnew l hl
  · intro hd l hl
    rcases List.mem_append.1 hl with hl | hl
    · exact h.unmarked hd l hl
    · cases List.mem_singleton.1 hl
      rfl

/-- A listing may be dispensed. -/
theorem remaining {before after : List Listing} {l : Listing} (h : Proper d user (before ++ l :: after)) :
    Proper d user (before ++ remaining d l after) := by
  cases d with
  | singleUse => exact h.sublist ((List.sublist_cons_self l after).append_left before)
  | shared =>
    -- the marked listing holds the coin that the listing held
    have hmarked : ∀ m ∈ before ++ { l with dispensed := true } :: after,
        ∃ old ∈ before ++ l :: after, m.coin = old.coin := by
      intro m hm
      simp only [List.mem_append, List.mem_cons] at hm ⊢
      rcases hm with hm | rfl | hm
      · exact ⟨m, .inl hm, rfl⟩
      · exact ⟨l, .inr (.inl rfl), rfl⟩
      · exact ⟨m, .inr (.inr hm), rfl⟩
    constructor
    · intro m hm
      obtain ⟨old, hold, hcoin⟩ := hmarked m hm
      rw [hcoin]
      exact h.owner_eq old hold
    · intro m hm
      obtain ⟨old, hold, hcoin⟩ := hmarked m hm
      rw [hcoin]
      exact h.valid old hold
    · have hnodup := h.nodup
      simp only [List.map_append, List.map_cons] at hnodup ⊢
      exact hnodup
    · intro hd
      cases hd

end Proper

/-! ## The whole broker -/

/-- What is kept is well-formed. -/
structure WellFormed (b : Broker) : Prop where
  /-- Nobody is kept without listings, or with a mailbox without packets. -/
  filed : Filed b
  /-- The listings kept for a user are proper ones of that user. -/
  listings : ∀ user, Proper b.config.dispense user (b.listings.of user)
  /-- The packets kept for a user are valid and addressed to that user, and their lengths are kept with them. -/
  checked : Checked b

/-- What one coin of a batch leaves. -/
theorem proper_enlist {d : Dispense} {r : Registry Listing} (h : ∀ user, Proper d user (r.of user)) {coin : Coin}
    (hvalid : coin.check = .ok ()) (now : UInt64) (user : String) : Proper d user ((enlist now r coin).of user) := by
  unfold enlist
  split
  · exact h user
  · next hnew =>
    rw [Registry.of_push]
    split
    · next hu =>
      subst hu
      refine (h coin.owner).append hvalid ?_ now
      intro l hl heq
      exact hnew ⟨l, hl, heq⟩
    · exact h user

namespace WellFormed

theorem empty (config : Config) (clock : Clock) : WellFormed { config, clock } := by
  constructor
  · exact filed_run config clock []
  · intro user
    rw [Registry.of_empty]
    exact .nil _ _
  · exact checked_run config clock []

/-- **Every operation** leaves proper listings. -/
theorem proper_after (h : WellFormed b) (op : Operation) (user : String) :
    Proper b.config.dispense user ((op.after b).listings.of user) := by
  cases op with
  | publish coins =>
    rw [Operation.after]
    cases hinvalid : invalid? coins with
    | some e =>
      rw [publish_of_invalid hinvalid]
      exact h.listings user
    | none =>
      rw [publish_of_valid hinvalid]
      exact enlistAll_induction (P := fun r => ∀ user, Proper b.config.dispense user (r.of user))
        (fun coin hc r hr => proper_enlist hr (check_of_invalid? hinvalid hc) b.clock.now) h.listings user
  | fetch other tier =>
    rw [Operation.after]
    rcases fetch_cases other tier b with hnone | ⟨before, l, rest, hof, -, -, hsome⟩
    · rw [hnone]
      exact h.listings user
    · rw [hsome, Registry.of_put]
      split
      · next hu =>
        have hlistings := h.listings other
        rw [hof] at hlistings
        rw [hu]
        exact hlistings.remaining
      · exact h.listings user
  | purge now =>
    rw [Operation.after, purge, Registry.of_retain]
    exact (h.listings user).sublist List.filter_sublist
  | route packet =>
    rw [Operation.after, listings_route]
    exact h.listings user
  | count => exact h.listings user
  | drain => exact h.listings user
  | clock => exact h.listings user

/-- **Every operation** leaves a broker well-formed. -/
theorem after (h : WellFormed b) (op : Operation) : WellFormed (op.after b) := by
  constructor
  · exact h.filed.after op
  · intro user
    rw [config_after]
    exact h.proper_after op user
  · exact h.checked.after op

/-- **A run** leaves a broker well-formed. -/
theorem run (config : Config) (clock : Clock) (ops : List Operation) : WellFormed (run ops { config, clock }) :=
  List.foldlRecOn ops _ (empty config clock) fun _ hb op _ => hb.after op

/-! ## Fetches -/

/-- **A coin that is handed out** is one of the user and the tier that were asked for. -/
theorem of_fetch_eq_some (h : WellFormed b) {tier : Tier} {coin : Coin} (hc : (b.fetch user tier).1 = some coin) :
    coin.owner = user ∧ coin.tier = tier := by
  rcases fetch_cases user tier b with hnone | ⟨before, l, rest, hof, -, htier, hsome⟩
  · rw [hnone] at hc
    cases hc
  · rw [hsome] at hc
    cases hc
    refine ⟨?_, htier⟩
    apply (h.listings user).owner_eq
    rw [hof]
    exact List.mem_append_right before List.mem_cons_self

/-- **A ledger keeps every coin** that the broker hands out to it. -/
theorem fetchOne_eq (h : WellFormed b) (user : String) (tier : Tier) (i : Inventory) :
    Ledger.fetchOne Link.direct user tier i b =
      match (b.fetch user tier).1 with
      | none => (false, i, b)
      | some coin => (true, (i.onCache (·.store coin)).2, (b.fetch user tier).2) := by
  cases hc : (b.fetch user tier).1 with
  | none => exact fetchOne_of_none hc
  | some coin => rw [fetchOne_of_some hc, if_pos (h.of_fetch_eq_some hc)]

end WellFormed

/-! ## After any inputs -/

/-- **Brokers are well-formed.** Whatever comes to a broker, under either way to dispense: what it keeps is well-formed,
its totals count what is kept, and a fetch hands out a coin of the user and the tier that were asked for. -/
theorem wellFormed_receive (config : Config) (clock : Clock) (inputs : List Input) :
    let b := receive inputs { config, clock }
    b.config = config ∧ WellFormed b ∧
      (∀ user, ∀ q ∈ b.mailboxes.of user, q.size = (Record.write q.packet).length ∧ q.size ≤ mailboxBudget) ∧
      (∃ owners : Finset String, (∀ user, user ∈ owners ↔ b.listings.of user ≠ []) ∧
        b.stats.users = owners.card ∧ b.stats.coins = ∑ user ∈ owners, (b.listings.of user).length) ∧
      (∃ recipients : Finset String, (∀ user, user ∈ recipients ↔ b.mailboxes.of user ≠ []) ∧
        b.stats.pending = ∑ user ∈ recipients, (b.mailboxes.of user).length) ∧
      (∀ user tier coin, (b.fetch user tier).1 = some coin → coin.owner = user ∧ coin.tier = tier) ∧
      ∀ user tier i, Ledger.fetchOne Link.direct user tier i b =
        match (b.fetch user tier).1 with
        | none => (false, i, b)
        | some coin => (true, (i.onCache (·.store coin)).2, (b.fetch user tier).2) := by
  intro b
  have hrun : b = run (inputs.filterMap Input.operation?) { config, clock } := receive_eq_run inputs _
  have hconfig : b.config = config := by
    rw [hrun]
    exact config_run _ _
  have hb : WellFormed b := by
    rw [hrun]
    exact .run config clock _
  refine ⟨hconfig, hb, ?_, hb.filed.listings.totals, ?_, ?_, ?_⟩
  · intro user q hq
    obtain ⟨hsize, -, hcheck⟩ := hb.checked user q hq
    refine ⟨hsize, ?_⟩
    rw [hsize]
    exact size_le_of_check hcheck
  · obtain ⟨recipients, hmem, -, hpending⟩ := hb.filed.mailboxes.totals
    exact ⟨recipients, hmem, hpending⟩
  · intro user tier coin hc
    exact hb.of_fetch_eq_some hc
  · intro user tier i
    exact hb.fetchOne_eq user tier i

end CoinRelay.Broker
