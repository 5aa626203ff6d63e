import CoinRelay.Proofs.Contact.Holdings

/-!
# Replenishing a contact's coins

An observation makes the fetches that the table asks for and no others, whatever they are answered. It keeps the coins
that were asked for and drops all else, so that a broker can neither make it do more than it should nor bring other
coins into the cache (`observe_replenishes`).

- `Tier.Counts.each`: the tiers that are asked for, one after the other;
- `Cache.storeAll`, `Cache.entries_storeAll`: where the coins of a cache come from;
- `matching?`, `fetched`: the answers that are kept, out of a transcript of requests and answers;
- `fetchOne_eq`, `fetchMany_eq`, `fetchAll_eq`, `tally?_fetched`: the fetches keep these and count them;
- `Replenishes`: what an observation does, whatever the other end of the line is.
-/

namespace CoinRelay

/-! ## Requests -/

/-- Each tier as often as it is counted, the strongest first. -/
def Tier.Counts.each (c : Counts) : List Tier :=
  List.replicate c.gold.toNat .gold ++ List.replicate c.silver.toNat .silver ++ List.replicate c.bronze.toNat .bronze

theorem Tier.Counts.count_each (c : Counts) (tier : Tier) : c.each.count tier = (c.get tier).toNat := by
  cases tier <;> simp [each, get, List.count_replicate]

/-- **The fetches of a user's coins** are what a logged link enters, in their order. -/
theorem Link.transcript_logged {σ : Type} (link : Link σ) (user : String) (tiers : List Tier) (calls : List Call)
    (s : σ) : transcript (link.logged.fetch user) tiers (calls, s) =
      ((transcript (link.fetch user) tiers s).1,
        ((tiers.map (.fetch user)).reverse ++ calls, (transcript (link.fetch user) tiers s).2)) := by
  induction tiers generalizing calls s with
  | nil => rfl
  | cons tier tiers ih =>
    rw [transcript_cons, transcript_cons]
    simp only [logged, entering] at ih ⊢
    rw [ih, List.map_cons, List.reverse_cons, List.append_assoc]
    rfl

/-! ## Coins that are stored -/

namespace Cache

variable {c : Cache} {slot : Slot} {e : CacheEntry}

/-- Stores coins one after the other. -/
def storeAll (coins : List Coin) (c : Cache) : Cache := coins.foldl (fun c coin => (c.store coin).2) c

theorem storeAll_append (coins more : List Coin) (c : Cache) :
    c.storeAll (coins ++ more) = (c.storeAll coins).storeAll more := List.foldl_append

/-- Making room leaves entries as they are, or drops them. -/
theorem entries_shrink {n : Nat} (h : (c.shrink n).2.entries[slot]? = some e) : c.entries[slot]? = some e := by
  induction n generalizing c with
  | zero => exact h
  | succ n ih =>
    unfold shrink at h
    split at h
    · have hdropped := ih h
      unfold dropOldest at hdropped
      split at hdropped
      · exact hdropped
      · split at hdropped
        · exact hdropped
        · rw [Ordered.getElem?_erase_eq] at hdropped
          split at hdropped
          · cases hdropped
          · exact hdropped
    · exact h

/-- A store brings the coin into its own slot and no other coin into any. -/
theorem entries_store {coin : Coin} (h : (c.store coin).2.entries[slot]? = some e) :
    (e.coin = coin ∧ coin.slot = slot) ∨ ∃ old, c.entries[slot]? = some old ∧ old.coin = e.coin := by
  cases hkept : c.entries[coin.slot]? with
  | some kept =>
    rw [store_of_kept hkept, touch, hkept] at h
    simp only [Ordered.getElem?_insert_eq] at h
    split at h
    · next hslot =>
      cases h
      exact .inr ⟨kept, hslot ▸ hkept, rfl⟩
    · exact .inr ⟨e, h, rfl⟩
  | none =>
    rw [store_of_free hkept] at h
    have hput := entries_shrink h
    rw [insert, Ordered.getElem?_insert_eq] at hput
    split at hput
    · next hslot =>
      cases hput
      exact .inl ⟨rfl, hslot⟩
    · exact .inr ⟨e, hput, rfl⟩

/-- **Each coin of a cache** into which coins were stored is one of them, in its own slot, or was in its slot before. -/
theorem entries_storeAll {coins : List Coin} (h : (c.storeAll coins).entries[slot]? = some e) :
    (e.coin ∈ coins ∧ e.coin.slot = slot) ∨ ∃ old, c.entries[slot]? = some old ∧ old.coin = e.coin := by
  induction coins generalizing c with
  | nil => exact .inr ⟨e, h, rfl⟩
  | cons coin coins ih =>
    rcases ih h with ⟨hin, hslot⟩ | ⟨old, hold, hsame⟩
    · exact .inl ⟨List.mem_cons_of_mem _ hin, hslot⟩
    · rcases entries_store hold with ⟨heq, hslot⟩ | ⟨older, holder, hsame'⟩
      · rw [heq] at hsame
        exact .inl ⟨hsame ▸ List.mem_cons_self, hsame ▸ hslot⟩
      · exact .inr ⟨older, holder, hsame'.trans hsame⟩

end Cache

/-! ## Answers -/

namespace Ledger

variable {σ : Type} (link : Link σ) (user : String)

/-- The coin of an answer, if it is one that was asked for. -/
def matching? (user : String) : Tier × Except LinkError (Option Coin) → Option Coin
  | (tier, .ok (some coin)) => if coin.owner = user ∧ coin.tier = tier then some coin else none
  | (_, .ok none) => none
  | (_, .error _) => none

theorem of_matching? {user : String} {tier : Tier} {answer : Except LinkError (Option Coin)} {coin : Coin}
    (h : matching? user (tier, answer) = some coin) : coin.owner = user ∧ coin.tier = tier := by
  match answer with
  | .ok (some other) =>
    rw [matching?] at h
    split at h
    · next hmatch =>
      cases h
      exact hmatch
    · cases h
  | .ok none => cases h
  | .error e => cases h

/-- The coins that fetches of tiers bring, in the order of the answers. -/
def fetched (tiers : List Tier) (s : σ) : List Coin :=
  (transcript (link.fetch user) tiers s).1.filterMap (matching? user)

theorem fetched_cons (tier : Tier) (tiers : List Tier) (s : σ) :
    fetched link user (tier :: tiers) s =
      (matching? user (tier, (link.fetch user tier s).1)).toList ++
        fetched link user tiers (link.fetch user tier s).2 := by
  unfold fetched
  rw [transcript_cons, List.filterMap_cons]
  cases matching? user (tier, (link.fetch user tier s).1) <;> rfl

theorem fetched_append (tiers more : List Tier) (s : σ) :
    fetched link user (tiers ++ more) s =
      fetched link user tiers s ++ fetched link user more (transcript (link.fetch user) tiers s).2 := by
  unfold fetched
  rw [transcript_append, List.filterMap_append]

/-- **One fetch** keeps the coin if it is one that was asked for. -/
theorem fetchOne_eq (tier : Tier) (i : Inventory) (s : σ) :
    fetchOne link user tier i s =
      ((matching? user (tier, (link.fetch user tier s).1)).isSome,
        { i with cache := i.cache.storeAll (matching? user (tier, (link.fetch user tier s).1)).toList },
        (link.fetch user tier s).2) := by
  unfold fetchOne
  cases hfetch : link.fetch user tier s with
  | mk answer s' =>
    match answer with
    | .error e => rfl
    | .ok none => rfl
    | .ok (some coin) =>
      simp only [matching?]
      split <;> rfl

/-- **Fetches of one tier** keep the coins that were asked for and count them. -/
theorem fetchMany_eq (tier : Tier) (n obtained : Nat) (i : Inventory) (s : σ) :
    fetchMany link user tier n obtained i s =
      (obtained + (fetched link user (List.replicate n tier) s).length,
        { i with cache := i.cache.storeAll (fetched link user (List.replicate n tier) s) },
        (transcript (link.fetch user) (List.replicate n tier) s).2) := by
  induction n generalizing obtained i s with
  | zero => rfl
  | succ n ih =>
    rw [fetchMany, fetchOne_eq, List.replicate_succ, fetched_cons, Cache.storeAll_append, List.length_append,
      ← Nat.add_assoc]
    simp only [ih, transcript_cons]
    cases matching? user (tier, (link.fetch user tier s).1) <;> rfl

theorem owner_of_mem_fetched {link : Link σ} {user : String} {tiers : List Tier} {s : σ} {coin : Coin}
    (h : coin ∈ fetched link user tiers s) : coin.owner = user := by
  obtain ⟨⟨tier, answer⟩, -, hmatch⟩ := List.mem_filterMap.1 h
  exact (of_matching? hmatch).1

/-- The answers that are kept are for different requests, and each has the tier that was asked for. -/
theorem map_tier_fetched_sublist (tiers : List Tier) (s : σ) :
    ((fetched link user tiers s).map (·.tier)).Sublist tiers := by
  induction tiers generalizing s with
  | nil => exact .slnil
  | cons tier tiers ih =>
    have hrest := ih (link.fetch user tier s).2
    rw [fetched_cons]
    cases hkept : matching? user (tier, (link.fetch user tier s).1) with
    | none => exact hrest.cons tier
    | some coin =>
      have htier := (of_matching? hkept).2
      rw [Option.toList_some, List.singleton_append, List.map_cons, htier]
      exact hrest.cons_cons tier

theorem map_tier_fetched_replicate (n : Nat) (tier : Tier) (s : σ) :
    (fetched link user (List.replicate n tier) s).map (·.tier) =
      List.replicate (fetched link user (List.replicate n tier) s).length tier := by
  obtain ⟨m, -, hm⟩ := List.sublist_replicate_iff.1 (map_tier_fetched_sublist link user (List.replicate n tier) s)
  have hlength := congrArg List.length hm
  rw [List.length_map, List.length_replicate] at hlength
  rw [hm, hlength]

/-- **The fetches of all tiers** keep the coins that were asked for and count them by their tiers. -/
theorem fetchAll_eq (requested : Tier.Counts) (i : Inventory) (s : σ) :
    fetchAll link user requested i s =
      (.tally ((fetched link user requested.each s).map (·.tier)),
        { i with cache := i.cache.storeAll (fetched link user requested.each s) },
        (transcript (link.fetch user) requested.each s).2) := by
  unfold fetchAll Tier.Counts.each
  simp only [fetchMany_eq, transcript_append, fetched_append, Cache.storeAll_append, List.map_append,
    map_tier_fetched_replicate, Nat.zero_add, Tier.Counts.tally, List.count_append, List.count_replicate]
  simp

/-! ## Observations -/

variable {link} {user}

/-- No more coins of a tier are kept than were asked for. -/
theorem count_fetched_le (requested : Tier.Counts) (s : σ) (tier : Tier) :
    ((fetched link user requested.each s).map (·.tier)).count tier ≤ (requested.get tier).toNat := by
  rw [← Tier.Counts.count_each]
  exact (map_tier_fetched_sublist link user requested.each s).count_le tier

theorem fits_fetched (requested : Tier.Counts) (s : σ) :
    Tier.Counts.Fits ((fetched link user requested.each s).map (·.tier)) :=
  fun tier => (count_fetched_le requested s tier).trans_lt (requested.get tier).toNat_lt

/-- **What is obtained** can be counted one at a time: no count passes 32 bits. -/
theorem tally?_fetched (requested : Tier.Counts) (i : Inventory) (s : σ) :
    Tier.Counts.tally? ((fetched link user requested.each s).map (·.tier)) =
      some (fetchAll link user requested i s).1 := by
  rw [fetchAll_eq]
  exact Tier.Counts.tally?_eq_some_iff.2 ⟨fits_fetched requested s, rfl⟩

/-- The coins that an observation obtains of a tier. -/
theorem get_obtained (requested : Tier.Counts) (i : Inventory) (s : σ) (tier : Tier) :
    ((fetchAll link user requested i s).1.get tier).toNat =
        (fetched link user requested.each s).countP (·.tier = tier) ∧
      (fetched link user requested.each s).countP (·.tier = tier) ≤ (requested.get tier).toNat := by
  have hcount : ((fetched link user requested.each s).map (·.tier)).count tier =
      (fetched link user requested.each s).countP (·.tier = tier) := by
    rw [List.count, List.countP_map]
    rfl
  rw [fetchAll_eq, Tier.Counts.toNat_get_tally (fits_fetched requested s), ← hcount]
  exact ⟨rfl, count_fetched_le requested s tier⟩

/-- The inventory after an observation. -/
theorem inventory_observe (link : Link σ) (now : UInt64) (user : String) (rate : UInt32) (l : Ledger) (i : Inventory)
    (s : σ) : (l.observe link now user rate i s).2.2.1 =
      { i with cache := i.cache.storeAll (fetched link user (l.issuance.replenish (.ofRate rate)).each s) } :=
  congrArg (fun result => result.2.1) (fetchAll_eq link user _ i s)

/-- The line after an observation. -/
theorem line_observe (link : Link σ) (now : UInt64) (user : String) (rate : UInt32) (l : Ledger) (i : Inventory)
    (s : σ) : (l.observe link now user rate i s).2.2.2 =
      (transcript (link.fetch user) (l.issuance.replenish (.ofRate rate)).each s).2 :=
  congrArg (fun result => result.2.2) (fetchAll_eq link user _ i s)

/-- What an observation of a contact does, whatever the other end of the line is. -/
structure Replenishes (link : Link σ) (now : UInt64) (user : String) (rate : UInt32) (l : Ledger) (i : Inventory)
    (s : σ) (requested : Tier.Counts) (coins : List Coin) : Prop where
  /-- It fetches coins of the contact as often as the table says, the strongest first, and makes no other call. -/
  calls : ∀ calls, l.observe link.logged now user rate i (calls, s) =
    ((l.observe link now user rate i s).1, (l.observe link now user rate i s).2.1,
      (l.observe link now user rate i s).2.2.1, (requested.each.map (.fetch user)).reverse ++ calls,
      (transcript (link.fetch user) requested.each s).2)
  /-- The coins that were asked for are stored in their order, and the secrets are left alone. -/
  inventory : (l.observe link now user rate i s).2.2.1 = { i with cache := i.cache.storeAll coins }
  /-- They are coins of the contact. -/
  owner_eq : ∀ coin ∈ coins, coin.owner = user
  /-- They are counted, by tiers, and no more of a tier are obtained than are asked for. -/
  obtained : ∀ tier, ((l.observe link now user rate i s).1.obtained.get tier).toNat = coins.countP (·.tier = tier) ∧
    coins.countP (·.tier = tier) ≤ (requested.get tier).toNat
  /-- The report tells the priority, and what was asked for. -/
  report : (l.observe link now user rate i s).1.priority = .ofRate rate ∧
    (l.observe link now user rate i s).1.requested = requested
  /-- Coins of others that are in the cache were there before. -/
  others : ∀ (slot : Slot) (e : CacheEntry), (l.observe link now user rate i s).2.2.1.cache.entries[slot]? = some e →
    e.coin.owner ≠ user → ∃ old, i.cache.entries[slot]? = some old ∧ old.coin = e.coin
  /-- The contact is noted as it was observed, with the coins of its that are now in the cache. -/
  contact : (l.observe link now user rate i s).2.1.contacts[user]? = some
    { user, rate, priority := .ofRate rate, held := (l.observe link now user rate i s).2.2.1.cache.held user
      lastSeen := now }
  /-- The other contacts are as they were, and so is the table. -/
  otherContacts : ∀ other, other ≠ user →
    (l.observe link now user rate i s).2.1.contacts[other]? = l.contacts[other]?
  issuance : (l.observe link now user rate i s).2.1.issuance = l.issuance

end Ledger

end CoinRelay
