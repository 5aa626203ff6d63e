import CoinRelay.Proofs.Broker.Run
import CoinRelay.Proofs.Tier
import Mathlib.Data.List.Induction

/-!
# Shared dispensing is stable

A broker that shares its coins hands out, for a user and a tier, one coin only: whatever is published or purged
between two fetches, the later one gets the same coin (`shared_dispensing_stable`). The coin keeps its listing, marked
as dispensed, and no other listing of the tier comes before it (`FirstMarked`).

- `InFront`, `marks`, `marks_mark`: marks in one user's listings;
- `FirstMarked.fetch_of_mem`: a marked listing is what a fetch finds;
- `FirstMarked.after`, `FirstMarked.marked_after`: what an operation does to the marks;
- `Remembers`, `Remembers.concat`: the marks tell what was handed out;
- `tally?_unfetched`, `get_count_add_length_marked`: what is counted.
-/

namespace CoinRelay.Broker

variable {b start : Broker} {user : String} {tier : Tier}

/-! ## Lists of listings -/

/-- Before a listing that is marked as dispensed there is none of its tier. -/
def InFront (ls : List Listing) : Prop := ls.Pairwise fun l m => m.dispensed = true → l.coin.tier ≠ m.coin.tier

/-- The listings of a tier that are marked as dispensed. -/
def marks (tier : Tier) (ls : List Listing) : List Listing :=
  ls.filter fun l => l.dispensed = true ∧ l.coin.tier = tier

theorem mem_marks {l : Listing} {ls : List Listing} :
    l ∈ marks tier ls ↔ l ∈ ls ∧ l.dispensed = true ∧ l.coin.tier = tier := by
  rw [marks, List.mem_filter, decide_eq_true_eq]

theorem marks_append (tier : Tier) (ls others : List Listing) :
    marks tier (ls ++ others) = marks tier ls ++ marks tier others := List.filter_append ..

/-- What is just listed is not marked. -/
theorem marks_new (tier : Tier) (now : UInt64) (coins : List Coin) : marks tier (coins.map (listing now)) = [] := by
  refine List.eq_nil_iff_forall_not_mem.2 fun l hl => ?_
  obtain ⟨hmem, hdispensed, -⟩ := mem_marks.1 hl
  obtain ⟨coin, -, rfl⟩ := List.mem_map.1 hmem
  cases hdispensed

namespace InFront

/-- No listing of its tier is in front of a marked one. -/
theorem tier_ne {before after : List Listing} {l : Listing} (h : InFront (before ++ l :: after))
    (hl : l.dispensed = true) : ∀ m ∈ before, m.coin.tier ≠ l.coin.tier :=
  fun m hm => (List.pairwise_append.1 h).2.2 m hm l List.mem_cons_self hl

/-- Nothing of its tier is marked behind a listing. -/
theorem marks_eq_nil {before after : List Listing} {l : Listing} (h : InFront (before ++ l :: after)) :
    marks l.coin.tier after = [] := by
  refine List.eq_nil_iff_forall_not_mem.2 fun m hm => ?_
  obtain ⟨hmem, hdispensed, htier⟩ := mem_marks.1 hm
  exact (List.pairwise_cons.1 (List.pairwise_append.1 h).2.1).1 m hmem hdispensed htier.symm

theorem append_new {ls : List Listing} (h : InFront ls) (now : UInt64) (coins : List Coin) :
    InFront (ls ++ coins.map (listing now)) := by
  refine List.pairwise_append.2 ⟨h, ?_, ?_⟩
  · exact List.pairwise_map.2 (List.pairwise_of_forall fun _ _ hnew => by cases hnew)
  · intro l _ m hm hdispensed
    obtain ⟨coin, -, rfl⟩ := List.mem_map.1 hm
    cases hdispensed

/-- The first listing of a tier may be marked. -/
theorem mark {before after : List Listing} {l : Listing} (h : InFront (before ++ l :: after))
    (hbefore : ∀ m ∈ before, m.coin.tier ≠ l.coin.tier) :
    InFront (before ++ { l with dispensed := true } :: after) := by
  obtain ⟨hfront, hrest, hcross⟩ := List.pairwise_append.1 h
  obtain ⟨hl, hafter⟩ := List.pairwise_cons.1 hrest
  refine List.pairwise_append.2 ⟨hfront, List.pairwise_cons.2 ⟨hl, hafter⟩, ?_⟩
  intro m hm n hn
  rcases List.mem_cons.1 hn with rfl | hn
  · exact fun _ => hbefore m hm
  · exact hcross m hm n (List.mem_cons_of_mem l hn)

/-- At most one listing of a tier is marked. -/
theorem length_marks_le {ls : List Listing} (h : InFront ls) (tier : Tier) : (marks tier ls).length ≤ 1 := by
  have hpairs : InFront (marks tier ls) := List.Pairwise.filter _ h
  match hm : marks tier ls with
  | [] => exact Nat.zero_le 1
  | [l] => exact Nat.le_refl 1
  | l :: m :: others =>
    obtain ⟨-, -, hl⟩ := mem_marks.1 (hm ▸ List.mem_cons_self : l ∈ marks tier ls)
    obtain ⟨-, hdispensed, hm'⟩ := mem_marks.1 (hm ▸ List.mem_cons_of_mem l List.mem_cons_self : m ∈ marks tier ls)
    rw [hm] at hpairs
    exact absurd (hl.trans hm'.symm) ((List.pairwise_cons.1 hpairs).1 m List.mem_cons_self hdispensed)

end InFront

/-- Marking the first listing of a tier makes it the only one marked. -/
theorem marks_mark {before after : List Listing} {l : Listing} (h : InFront (before ++ l :: after))
    (hbefore : ∀ m ∈ before, m.coin.tier ≠ l.coin.tier) :
    marks l.coin.tier (before ++ { l with dispensed := true } :: after) = [{ l with dispensed := true }] := by
  have hfront : marks l.coin.tier before = [] := by
    refine List.eq_nil_iff_forall_not_mem.2 fun m hm => ?_
    obtain ⟨hmem, -, htier⟩ := mem_marks.1 hm
    exact hbefore m hmem htier
  rw [marks_append, hfront, List.nil_append, marks, List.filter_cons_of_pos (by simp)]
  exact congrArg _ h.marks_eq_nil

/-- Marking a listing leaves the marks of the other tiers. -/
theorem marks_mark_of_ne {before after : List Listing} {l : Listing} (h : l.coin.tier ≠ tier) :
    marks tier (before ++ { l with dispensed := true } :: after) = marks tier (before ++ l :: after) := by
  rw [marks_append, marks_append]
  congr 1
  rw [marks, marks, List.filter_cons_of_neg (by simp [h]), List.filter_cons_of_neg (by simp [h])]

/-! ## Fetching -/

/-- Only first listings of a tier are marked as dispensed. -/
def FirstMarked (b : Broker) : Prop := ∀ user, InFront (b.listings.of user)

/-- The listings of a user and a tier that are marked as dispensed. -/
def marked (user : String) (tier : Tier) (b : Broker) : List Listing := marks tier (b.listings.of user)

theorem FirstMarked.empty (config : Config) (clock : Clock) : FirstMarked { config, clock } := by
  intro user
  rw [Registry.of_empty]
  exact .nil

/-- **A fetch finds the marked listing.** -/
theorem FirstMarked.fetch_of_mem (h : FirstMarked b) {l : Listing} (hl : l ∈ b.marked user tier) :
    (b.fetch user tier).1 = some l.coin := by
  obtain ⟨hmem, hdispensed, rfl⟩ := mem_marks.1 hl
  obtain ⟨before, after, hof⟩ := List.append_of_mem hmem
  have hbefore : ∀ m ∈ before, m.coin.tier ≠ l.coin.tier := (hof ▸ h user).tier_ne hdispensed
  rw [fetch_of_append hof hbefore rfl]

/-- A fetch hands out nothing and changes nothing, or it marks the listing of the coin that it hands out. -/
theorem FirstMarked.fetch (h : FirstMarked b) (hb : b.config.dispense = .shared) (user : String) (tier : Tier) :
    b.fetch user tier = (none, b) ∨
      ∃ l : Listing, (b.fetch user tier).1 = some l.coin ∧ FirstMarked (b.fetch user tier).2 ∧
        (b.fetch user tier).2.marked user tier = [{ l with dispensed := true }] ∧
        ∀ other level, ¬(other = user ∧ level = tier) →
          (b.fetch user tier).2.marked other level = b.marked other level := by
  rcases fetch_cases user tier b with hnone | ⟨before, l, after, hof, hbefore, rfl, hfetch⟩
  · exact .inl hnone
  · rw [hb] at hfetch
    have hfront : InFront (before ++ l :: after) := hof ▸ h user
    have hlistings (other : String) : (b.fetch user l.coin.tier).2.listings.of other =
        if other = user then before ++ { l with dispensed := true } :: after else b.listings.of other := by
      rw [hfetch]
      exact Registry.of_put ..
    refine .inr ⟨l, by rw [hfetch], fun other => ?_, ?_, fun other level hother => ?_⟩
    · rw [hlistings]
      split
      · exact hfront.mark hbefore
      · exact h other
    · rw [marked, hlistings, if_pos rfl]
      exact marks_mark hfront hbefore
    · rw [marked, marked, hlistings]
      split
      · next hu =>
        have hlevel : l.coin.tier ≠ level := fun heq => hother ⟨hu, heq.symm⟩
        rw [hu, hof]
        exact marks_mark_of_ne hlevel
      · rfl

/-! ## Operations -/

theorem FirstMarked.publish (h : FirstMarked b) (coins : List Coin) : FirstMarked (b.publish coins).2 := by
  intro user
  rw [listings_publish]
  exact (h user).append_new _ _

theorem marked_publish (coins : List Coin) (b : Broker) (user : String) (tier : Tier) :
    (b.publish coins).2.marked user tier = b.marked user tier := by
  rw [marked, listings_publish, marks_append, marks_new, List.append_nil]
  rfl

theorem FirstMarked.purge (h : FirstMarked b) (now : UInt64) : FirstMarked (b.purge now).2 := by
  intro user
  rw [Broker.purge, Registry.of_retain]
  exact List.Pairwise.filter _ (h user)

/-- What is marked outlives every purge. -/
theorem marked_purge (now : UInt64) (b : Broker) (user : String) (tier : Tier) :
    (b.purge now).2.marked user tier = b.marked user tier := by
  rw [marked, Broker.purge, Registry.of_retain, marks, List.filter_filter]
  refine List.filter_congr fun l _ => ?_
  cases hd : l.dispensed <;> simp [outlives, hd]

/-- **Each operation leaves the marks in front.** -/
theorem FirstMarked.after (h : FirstMarked b) (hb : b.config.dispense = .shared) (op : Operation) :
    FirstMarked (op.after b) := by
  cases op with
  | publish coins => exact h.publish coins
  | fetch user tier =>
    rcases h.fetch hb user tier with hnone | ⟨l, -, hafter, -⟩
    · rw [Operation.after, hnone]
      exact h
    · exact hafter
  | route packet =>
    intro user
    rw [Operation.after, listings_route]
    exact h user
  | purge now => exact h.purge now
  | count | drain | clock => exact h

/-- **An operation** hands out no coin of a tier and leaves the marks there as they are, or it hands out the coin of
the only marked listing, which was the only one that may have been marked before. -/
theorem FirstMarked.marked_after (h : FirstMarked b) (hb : b.config.dispense = .shared) (op : Operation)
    (user : String) (tier : Tier) :
    op.grantedTo user tier b = [] ∧ (op.after b).marked user tier = b.marked user tier ∨
      ∃ coin, op.grantedTo user tier b = [coin] ∧ ((op.after b).marked user tier).map (·.coin) = [coin] ∧
        ∀ l ∈ b.marked user tier, l.coin = coin := by
  cases op with
  | fetch other level =>
    rcases h.fetch hb other level with hnone | ⟨l, hgranted, -, hmarked, hothers⟩
    · exact .inl ⟨Operation.grantedTo_of_none (by rw [hnone]) user tier, by rw [Operation.after, hnone]⟩
    · by_cases hsame : other = user ∧ level = tier
      · obtain ⟨rfl, rfl⟩ := hsame
        refine .inr ⟨l.coin, ?_, by rw [Operation.after, hmarked]; rfl, fun m hm => ?_⟩
        · rw [Operation.grantedTo_self, hgranted]
          rfl
        · rw [h.fetch_of_mem hm] at hgranted
          exact Option.some.inj hgranted
      · exact .inl ⟨Operation.grantedTo_of_ne hsame b, hothers user tier fun h => hsame ⟨h.1.symm, h.2.symm⟩⟩
  | publish coins => exact .inl ⟨rfl, marked_publish coins b user tier⟩
  | route packet =>
    refine .inl ⟨rfl, ?_⟩
    rw [marked, Operation.after, listings_route]
    rfl
  | purge now => exact .inl ⟨rfl, marked_purge now b user tier⟩
  | count | drain | clock => exact .inl ⟨rfl, rfl⟩

/-! ## Runs -/

/-- The marks of a tier tell what was handed out: nothing is marked if nothing was handed out, and else only a listing
of the one coin. -/
structure Remembers (user : String) (tier : Tier) (start : Broker) (ops : List Operation) : Prop where
  firstMarked : FirstMarked (run ops start)
  unmarked : gather (Operation.grantedTo user tier) ops start = [] → (run ops start).marked user tier = []
  only : ∀ coin ∈ gather (Operation.grantedTo user tier) ops start,
    ((run ops start).marked user tier).map (·.coin) = [coin]

theorem Remembers.nil (user : String) (tier : Tier) (config : Config) (clock : Clock) :
    Remembers user tier { config, clock } [] where
  firstMarked := .empty config clock
  unmarked _ := by
    show marks tier (Registry.of .empty user) = []
    rw [Registry.of_empty]
    rfl
  only _ hc := by cases hc

/-- **Each operation keeps the memory.** -/
theorem Remembers.concat {ops : List Operation} (h : Remembers user tier start ops)
    (hs : start.config.dispense = .shared) (op : Operation) : Remembers user tier start (ops ++ [op]) := by
  have hb : (run ops start).config.dispense = .shared := by rw [config_run, hs]
  have hrun : run (ops ++ [op]) start = op.after (run ops start) := run_append ops [op] start
  have hafter : FirstMarked (run (ops ++ [op]) start) := hrun ▸ h.firstMarked.after hb op
  rcases h.firstMarked.marked_after hb op user tier with ⟨hgranted, hmarked⟩ | ⟨coin, hgranted, hmarked, hsame⟩
  · refine ⟨hafter, ?_, ?_⟩ <;> rw [gather_concat, hgranted, List.append_nil, hrun, hmarked]
    · exact h.unmarked
    · exact h.only
  · refine ⟨hafter, fun hnil => ?_, fun granted hmem => ?_⟩
    · rw [gather_concat, hgranted] at hnil
      exact absurd (List.append_eq_nil_iff.1 hnil).2 (List.cons_ne_nil coin [])
    · rw [hrun, hmarked]
      rw [gather_concat, hgranted] at hmem
      rcases List.mem_append.1 hmem with hold | hnew
      · -- handed out before, so the marked listing was that of the same coin
        have hone := h.only granted hold
        obtain ⟨l, hl, rfl⟩ := List.mem_map.1 (hone ▸ List.mem_cons_self)
        rw [hsame l hl]
      · rw [List.mem_singleton.1 hnew]

theorem remembers_run {config : Config} (h : config.dispense = .shared) (clock : Clock) (ops : List Operation)
    (user : String) (tier : Tier) : Remembers user tier { config, clock } ops := by
  induction ops using List.reverseRecOn with
  | nil => exact .nil user tier config clock
  | append_singleton ops op ih => exact ih.concat h op

/-! ## Counts -/

theorem fits_unfetched (h : (b.listings.of user).length < UInt32.size) :
    Tier.Counts.Fits (((b.listings.of user).filter fun l => !l.dispensed).map (·.coin.tier)) := by
  apply Tier.Counts.fits_of_length_lt
  rw [List.length_map]
  exact Nat.lt_of_le_of_lt (List.length_filter_le ..) h

/-- **The counts** of a user with fewer listings than 32 bits can tell are exact: nothing overflows when the listings
that nobody fetched are counted one at a time. -/
theorem tally?_unfetched (h : (b.listings.of user).length < UInt32.size) :
    Tier.Counts.tally? (((b.listings.of user).filter fun l => !l.dispensed).map (·.coin.tier)) =
      some (b.count user) := Tier.Counts.tally?_eq_some_iff.2 ⟨fits_unfetched h, rfl⟩

/-- The listings of a tier are those that nobody fetched and those that are marked. -/
theorem get_count_add_length_marked (h : (b.listings.of user).length < UInt32.size) (tier : Tier) :
    ((b.count user).get tier).toNat + (b.marked user tier).length =
      ((b.listings.of user).filter (·.coin.tier = tier)).length := by
  let tiered := (b.listings.of user).filter (·.coin.tier = tier)
  have hmarked : (b.marked user tier).length = tiered.countP (·.dispensed) := by
    rw [List.countP_filter, List.countP_eq_length_filter, marked, marks]
    simp only [Bool.decide_and, Bool.decide_eq_true]
  have hcount : ((b.count user).get tier).toNat = tiered.countP fun l => !l.dispensed := by
    rw [count, Tier.Counts.toNat_get_tally (fits_unfetched h), List.count, List.countP_map, List.countP_filter,
      List.countP_filter]
    refine List.countP_congr fun l _ => ?_
    simp [and_comm]
  have hsplit : tiered.length = tiered.countP (·.dispensed) + tiered.countP fun l => !l.dispensed := by
    rw [List.length_eq_countP_add_countP (·.dispensed)]
    simp
  show _ = tiered.length
  rw [hmarked, hcount, hsplit, Nat.add_comm]

/-! ## Stability -/

/-- What a broker that shares its coins does with those of a user and a tier. -/
structure Stable (start : Broker) (ops : List Operation) (user : String) (tier : Tier) : Prop where
  /-- A coin that was handed out is handed out again. -/
  again : ∀ coin ∈ gather (Operation.grantedTo user tier) ops start,
    ((run ops start).fetch user tier).1 = some coin
  /-- No other was handed out. -/
  only : ∀ coin ∈ gather (Operation.grantedTo user tier) ops start,
    ∀ other ∈ gather (Operation.grantedTo user tier) ops start, other = coin
  /-- At most one listing is marked as dispensed. -/
  marked : (((run ops start).listings.of user).filter fun l => l.dispensed = true ∧ l.coin.tier = tier).length ≤ 1
  /-- It is the first of its tier. -/
  first : ∀ before l after, (run ops start).listings.of user = before ++ l :: after → l.dispensed = true →
    ∀ m ∈ before, m.coin.tier ≠ l.coin.tier
  /-- All listings count but that of the coin handed out. -/
  counts : ((run ops start).listings.of user).length < UInt32.size →
    (((run ops start).count user).get tier).toNat +
        (if gather (Operation.grantedTo user tier) ops start = [] then 0 else 1) =
      (((run ops start).listings.of user).filter (·.coin.tier = tier)).length

/-- **A broker that shares its coins hands out one coin for a user and a tier**, over and over; and it counts all the
others. -/
theorem shared_dispensing_stable {config : Config} (h : config.dispense = .shared) (clock : Clock)
    (ops : List Operation) (user : String) (tier : Tier) : Stable { config, clock } ops user tier := by
  have hmemory := remembers_run h clock ops user tier
  have hagain : ∀ coin ∈ gather (Operation.grantedTo user tier) ops { config, clock },
      ((run ops { config, clock }).fetch user tier).1 = some coin := by
    intro coin hc
    obtain ⟨l, hl, rfl⟩ := List.mem_map.1 (hmemory.only coin hc ▸ List.mem_cons_self)
    exact hmemory.firstMarked.fetch_of_mem hl
  refine ⟨hagain, fun coin hc other ho => ?_, (hmemory.firstMarked user).length_marks_le tier,
    fun before l after hof hl => (hof ▸ hmemory.firstMarked user).tier_ne hl, fun hlength => ?_⟩
  · have hsame := hagain coin hc
    rw [hagain other ho] at hsame
    exact Option.some.inj hsame
  · rw [← get_count_add_length_marked hlength]
    congr 1
    split
    · next hnil => rw [hmemory.unmarked hnil, List.length_nil]
    · next hne =>
      obtain ⟨coin, hc⟩ := List.exists_mem_of_ne_nil _ hne
      rw [← List.length_map (·.coin), hmemory.only coin hc, List.length_singleton]

/-- A silver coin of Ben's. -/
def bensCoin (keyId : UInt64) : Coin :=
  { owner := "ben", keyId := ⟨keyId⟩, tier := .silver, publicKey := "ab", signature := "00" }

/-- Two visits to Ben. Between them the coin that nobody fetched grows stale and another comes. -/
def visits : List Operation :=
  [.publish [bensCoin 1, bensCoin 2], .fetch "ben" .silver, .purge 2592001, .publish [bensCoin 3],
    .fetch "ben" .silver]

theorem shared_dispensing_stable_visits :
    ({} : Config).dispense = .shared ∧ Stable { config := {}, clock := ⟨0⟩ } visits "ben" .silver ∧
      gather (Operation.grantedTo "ben" .silver) visits { config := {}, clock := ⟨0⟩ } = [bensCoin 1, bensCoin 1] ∧
      (((run visits { config := {}, clock := ⟨0⟩ }).count "ben").get .silver).toNat = 1 := by
  have hshared : ({} : Config).dispense = .shared := rfl
  have hstable := shared_dispensing_stable hshared ⟨0⟩ visits "ben" .silver
  exact ⟨hshared, hstable, by decide +kernel, by decide +kernel⟩

end CoinRelay.Broker
