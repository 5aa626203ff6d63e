import CoinRelay.Proofs.Broker.Registry
import CoinRelay.Proofs.Broker.Run

/-!
# Stale listings

A purge takes out the listings that nobody fetched and that are too old (`Stale`), tells their number, and changes
nothing else (`Purges`). Listings only age, so that purges at several times come to one purge at the latest of them
(`purge_takes_stale`), whichever of the times comes first.

- `outlives_eq`, `outlives_max`: which listings outlive one purge, and which outlive two;
- `purges`: what one purge does;
- `purge_max`, `purge_run`: two purges, and any number of them.
-/

namespace CoinRelay.Broker

variable {now : UInt64} {maxAge : Nat} {l : Listing}

/-- Nobody fetched a listing, and it was published more than `maxAge` seconds ago. What was not published before `now` has
no age yet. -/
def Stale (now : UInt64) (maxAge : Nat) (l : Listing) : Prop :=
  l.dispensed = false ∧ maxAge < now.toNat - l.publishedAt.toNat

instance (now : UInt64) (maxAge : Nat) : DecidablePred (Stale now maxAge) := fun _ => inferInstanceAs (Decidable (_ ∧ _))

/-- A listing that was published at the time or later is not stale. -/
theorem not_stale_of_le (h : now ≤ l.publishedAt) : ¬Stale now maxAge l := by
  rintro ⟨-, hage⟩
  have hle := UInt64.le_iff_toNat_le.1 h
  omega

theorem outlives_eq (now : UInt64) (maxAge : Nat) (l : Listing) :
    outlives now maxAge l = decide (¬Stale now maxAge l) := by
  unfold outlives Stale elapsed
  by_cases h : l.dispensed <;> simp [h]

/-- As much time has elapsed until the later of two times as until one of them, and no less than until the other. -/
theorem elapsed_max (since t u : UInt64) : elapsed since (max t u) = max (elapsed since t) (elapsed since u) := by
  unfold elapsed
  show (if t ≤ u then u else t).toNat - since.toNat = _
  split
  · next h =>
    have hle := UInt64.le_iff_toNat_le.1 h
    omega
  · next h =>
    have hlt := UInt64.lt_iff_toNat_lt.1 (UInt64.not_le.1 h)
    omega

/-- **What outlives two purges** is what outlives the later one. -/
theorem outlives_max (t u : UInt64) (maxAge : Nat) (l : Listing) :
    outlives (max t u) maxAge l = (outlives t maxAge l && outlives u maxAge l) := by
  unfold outlives
  rw [elapsed_max]
  cases l.dispensed with
  | true => rfl
  | false =>
    rw [Bool.false_or, Bool.false_or, Bool.false_or, ← Bool.decide_and]
    exact decide_eq_decide.2 Nat.max_le

/-! ## One purge -/

/-- What a purge leaves of a broker, and the number that it tells. -/
structure Purges (now : UInt64) (b : Broker) (n : Nat) (b' : Broker) : Prop where
  /-- The listings of each user that are not stale stay as they are, in their order. -/
  kept : ∀ user, b'.listings.of user = (b.listings.of user).filter (¬Stale now b.config.maxAge ·)
  /-- The stale ones are counted, over all users. -/
  number : ∃ users : Finset String, (∀ user, user ∈ users ↔ b.listings.of user ≠ []) ∧
    n = ∑ user ∈ users, (b.listings.of user).countP (Stale now b.config.maxAge ·)
  /-- Nobody is kept without listings. -/
  filed : b'.listings.Filed
  /-- The mailboxes stay, and so does all else. -/
  mailboxes : b'.mailboxes = b.mailboxes
  others : b' = { b with listings := b'.listings }
  /-- What was published at the time or later stays. -/
  recent : ∀ user, ∀ l ∈ b.listings.of user, now ≤ l.publishedAt → l ∈ b'.listings.of user

/-- The size of the listings before a purge is the number that it tells and the size of those after it. -/
theorem size_purge (now : UInt64) (b : Broker) {users : Finset String}
    (h : ∀ user, b.listings.of user ≠ [] → user ∈ users) :
    b.listings.size = (b.purge now).2.listings.size +
      ∑ user ∈ users, (b.listings.of user).countP (Stale now b.config.maxAge ·) := by
  rw [purge, Registry.size_retain (outlives now b.config.maxAge) b.listings h]
  congr 1
  refine Finset.sum_congr rfl fun user _ => List.countP_congr fun l _ => ?_
  simp [outlives_eq]

/-- **A purge** takes out what is stale. -/
theorem purges (now : UInt64) (b : Broker) : Purges now b (b.purge now).1 (b.purge now).2 := by
  have hkept : ∀ user, (b.purge now).2.listings.of user =
      (b.listings.of user).filter (¬Stale now b.config.maxAge ·) := by
    intro user
    rw [purge, Registry.of_retain]
    exact List.filter_congr fun l _ => outlives_eq now b.config.maxAge l
  constructor
  · exact hkept
  · obtain ⟨users, husers⟩ := b.listings.exists_users
    refine ⟨users, husers, ?_⟩
    have hsize := size_purge now b fun user => (husers user).2
    have hnumber : (b.purge now).1 = b.listings.size - (b.purge now).2.listings.size := rfl
    omega
  · exact .retain _ b.listings
  · rfl
  · rfl
  · intro user l hl hrecent
    rw [hkept, List.mem_filter]
    exact ⟨hl, decide_eq_true (not_stale_of_le hrecent)⟩

/-! ## Purges one after the other -/

/-- **Two purges** leave what one at the later of the times leaves, and take out as many. -/
theorem purge_max (t u : UInt64) (b : Broker) :
    b.purge (max t u) = ((b.purge t).1 + ((b.purge t).2.purge u).1, ((b.purge t).2.purge u).2) := by
  have hkept : (b.purge (max t u)).2.listings = ((b.purge t).2.purge u).2.listings := by
    simp only [purge, Registry.retain_retain]
    rw [funext (outlives_max t u b.config.maxAge)]
  -- neither purge can leave more than there was, so the differences add up
  obtain ⟨users, husers⟩ := b.listings.exists_users
  obtain ⟨left, hleft⟩ := (b.purge t).2.listings.exists_users
  have hfirst := size_purge t b fun user => (husers user).2
  have hsecond := size_purge u (b.purge t).2 fun user => (hleft user).2
  have hnumber : (b.purge (max t u)).1 = (b.purge t).1 + ((b.purge t).2.purge u).1 := by
    show b.listings.size - (b.purge (max t u)).2.listings.size =
      (b.listings.size - (b.purge t).2.listings.size) +
        ((b.purge t).2.listings.size - ((b.purge t).2.purge u).2.listings.size)
    rw [hkept]
    omega
  have hbroker : (b.purge (max t u)).2 = ((b.purge t).2.purge u).2 := by
    rw [(purges (max t u) b).others, hkept]
    rfl
  exact Prod.ext hnumber hbroker

/-- **Any number of purges** leaves what one at the latest of the times leaves, and takes out as many. -/
theorem purge_run (t : UInt64) (ts : List UInt64) (b : Broker) :
    b.purge (ts.foldl max t) =
      ((gather Operation.dropped ((t :: ts).map .purge) b).sum, run ((t :: ts).map .purge) b) := by
  induction ts using List.reverseRecOn with
  | nil => rfl
  | append_singleton ts u ih =>
    rw [List.foldl_append, List.foldl_cons, List.foldl_nil, purge_max, ih, ← List.cons_append, List.map_append,
      List.map_singleton, gather_concat, run_append, List.sum_append]
    rfl

end CoinRelay.Broker
