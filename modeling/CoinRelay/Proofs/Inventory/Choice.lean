import CoinRelay.Proofs.Inventory.Represents
import CoinRelay.Proofs.Tier

/-!
# Choosing a coin

The entries of an owner come in the order of their identifiers, so the first of a tier holds the least coin of it: what
a cache chooses is what the list chooses.

- `Represents.coinsOf_perm`, `Represents.held?`: the coins of an owner, and how many there are;
- `Represents.best?`, `Represents.bestOrWeaker?`: the choice.
-/

namespace CoinRelay

open RecencyList

namespace Represents

variable {c : Cache} {l : RecencyList}

/-! ## Choice -/

/-- The entries of an owner are those in the owner's slots. -/
theorem mem_entriesOf {owner : String} {e : CacheEntry} :
    e ∈ c.entriesOf owner ↔ ∃ slot : Slot, c.entries[slot]? = some e ∧ slot.owner = owner := by
  simp only [Cache.entriesOf, List.mem_map, List.mem_filter, Prod.exists,
    Std.ExtTreeMap.mem_toList_iff_getElem?_eq_some, decide_eq_true_eq]
  exact ⟨fun ⟨slot, _, ⟨he, ho⟩, heq⟩ => ⟨slot, heq ▸ he, ho⟩, fun ⟨slot, he, ho⟩ => ⟨slot, e, ⟨he, ho⟩, rfl⟩⟩

/-- The coins of an owner in the cache are those in the list. -/
theorem mem_coinsOf (h : Represents c l) {owner : String} {coin : Coin} :
    coin ∈ (c.entriesOf owner).map (·.coin) ↔ coin ∈ l.coins ∧ coin.owner = owner := by
  rw [List.mem_map]
  constructor
  · rintro ⟨e, he, rfl⟩
    obtain ⟨slot, hslot, rfl⟩ := mem_entriesOf.1 he
    obtain ⟨hc, hs, -⟩ := h.of_entry hslot
    exact ⟨hc, congrArg Slot.owner hs⟩
  · rintro ⟨hc, rfl⟩
    obtain ⟨tick, he, -⟩ := h.entry coin hc
    exact ⟨_, mem_entriesOf.2 ⟨coin.slot, he, rfl⟩, rfl⟩

/-- Slots of one owner are in the order of their identifiers. -/
theorem word_lt_of_compare {s t : Slot} (ho : s.owner = t.owner) (hlt : compare s t = .lt) :
    s.keyId.word.toNat < t.keyId.word.toNat := by
  have hthen : (compare s.owner t.owner).then (compare s.keyId.word t.keyId.word) = .lt := hlt
  rw [ho, Std.compare_self] at hthen
  exact UInt64.lt_iff_toNat_lt.1 (Std.compare_eq_lt.1 hthen)

/-- The entries of an owner come in the order of their identifiers. -/
theorem pairwise_entriesOf (h : Represents c l) (owner : String) :
    (c.entriesOf owner).Pairwise fun e f => e.coin.keyId.word.toNat < f.coin.keyId.word.toNat := by
  unfold Cache.entriesOf
  rw [List.pairwise_map]
  have hkeys := c.entries.ordered_keys_toList.filter (fun p => decide (p.1.owner = owner))
  apply hkeys.imp_of_mem
  intro p q hp hq hlt
  obtain ⟨s, e⟩ := p
  obtain ⟨t, f⟩ := q
  obtain ⟨hp, hpo⟩ := List.mem_filter.1 hp
  obtain ⟨hq, hqo⟩ := List.mem_filter.1 hq
  obtain ⟨-, rfl, -⟩ := h.of_entry (Std.ExtTreeMap.mem_toList_iff_getElem?_eq_some.1 hp)
  obtain ⟨-, rfl, -⟩ := h.of_entry (Std.ExtTreeMap.mem_toList_iff_getElem?_eq_some.1 hq)
  exact word_lt_of_compare ((of_decide_eq_true hpo).trans (of_decide_eq_true hqo).symm) hlt

/-- The coins of an owner in the cache are a permutation of those in the list. -/
theorem coinsOf_perm (h : Represents c l) (owner : String) :
    ((c.entriesOf owner).map (·.coin)).Perm (l.coins.filter fun coin => coin.owner = owner) := by
  have hnd : ((c.entriesOf owner).map (·.coin)).Nodup :=
    List.pairwise_map.2 ((h.pairwise_entriesOf owner).imp fun {e f} hlt heq => by
      rw [heq] at hlt
      exact Nat.lt_irrefl _ hlt)
  refine (List.perm_ext_iff_of_nodup hnd (h.coins_nodup.filter _)).2 ?_
  intro coin
  rw [h.mem_coinsOf, List.mem_filter, decide_eq_true_iff]

/-- There are as many coins of an owner and a tier as in the list. -/
theorem count_entriesOf (h : Represents c l) (owner : String) (tier : Tier) :
    ((c.entriesOf owner).map (·.coin.tier)).count tier = l.number owner tier := by
  have hperm := (h.coinsOf_perm owner).map (·.tier)
  rw [List.map_map] at hperm
  show ((c.entriesOf owner).map ((·.tier) ∘ (·.coin))).count tier = _
  rw [hperm.count_eq, RecencyList.number, List.count, List.countP_map, List.countP_filter]
  apply List.countP_congr
  intro coin _
  simp [and_comm]

/-- **The counts** are those of the list. -/
theorem held? (h : Represents c l) (owner : String) : c.held? owner = l.held? owner := by
  have hcount := h.count_entriesOf owner
  apply Option.ext
  intro counts
  rw [Cache.held?, Tier.Counts.tally?_eq_some_iff, RecencyList.held?, Option.ite_none_right_eq_some, Tier.Counts.Fits,
    Tier.Counts.tally]
  simp only [hcount, Option.some.injEq]
  refine and_congr ?_ eq_comm
  constructor
  · intro hfits
    exact ⟨hfits .gold, hfits .silver, hfits .bronze⟩
  · rintro ⟨hgold, hsilver, hbronze⟩ tier
    cases tier with
    | gold => exact hgold
    | silver => exact hsilver
    | bronze => exact hbronze

theorem firstOf?_eq_none (h : Represents c l) {owner : String} {tier : Tier} (hf : c.firstOf? owner tier = none)
    {coin : Coin} (hc : coin ∈ l.coins) (ho : coin.owner = owner) : coin.tier ≠ tier := by
  obtain ⟨e, he, rfl⟩ := List.mem_map.1 (h.mem_coinsOf.2 ⟨hc, ho⟩)
  simpa using List.find?_eq_none.1 hf e he

/-- The first entry of an owner and a tier holds the least coin of them. -/
theorem firstOf?_eq_some (h : Represents c l) {owner : String} {tier : Tier} {e : CacheEntry}
    (hf : c.firstOf? owner tier = some e) :
    e.coin ∈ l.coins ∧ e.coin.owner = owner ∧ e.coin.tier = tier ∧
      ∀ other ∈ l.coins, other.owner = owner → other.tier = tier → other ≠ e.coin →
        e.coin.keyId.word.toNat < other.keyId.word.toNat := by
  obtain ⟨htier, before, rest, hlist, hbefore⟩ := List.find?_eq_some_iff_append.1 hf
  have hpair := h.pairwise_entriesOf owner
  rw [hlist] at hpair
  have hafter := (List.pairwise_cons.1 (List.pairwise_append.1 hpair).2.1).1
  have hmem : e.coin ∈ (c.entriesOf owner).map (·.coin) := by
    rw [hlist, List.map_append]
    exact List.mem_append_right _ List.mem_cons_self
  obtain ⟨hc, ho⟩ := h.mem_coinsOf.1 hmem
  refine ⟨hc, ho, by simpa using htier, ?_⟩
  intro other hoc hoo hot hne
  obtain ⟨f, hfe, rfl⟩ := List.mem_map.1 (h.mem_coinsOf.2 ⟨hoc, hoo⟩)
  rw [hlist] at hfe
  rcases List.mem_append.1 hfe with hfe | hfe
  · exact absurd hot (by simpa using hbefore f hfe)
  · rcases List.mem_cons.1 hfe with rfl | hfe
    · exact absurd rfl hne
    · exact hafter f hfe

/-- The choice of a cache is that of the list: the same coin, moved to the end. -/
theorem choose (h : Represents c l) {choice : Option CacheEntry} {coin : Option Coin}
    (hcoin : choice.map (·.coin) = coin) (hmem : ∀ e ∈ choice, e.coin ∈ l.coins) :
    choice.map (·.coin) = (l.choose coin).1 ∧
      Represents (choice.elim c fun e => c.touch e.coin.slot) (l.choose coin).2 := by
  subst hcoin
  refine ⟨rfl, ?_⟩
  cases choice with
  | none => exact h
  | some e => exact h.touch (hmem e rfl)

theorem best?_eq (owner : String) (tier : Tier) (c : Cache) :
    c.best? owner tier = ((c.firstOf? owner tier).map (·.coin),
      (c.firstOf? owner tier).elim c fun e => c.touch e.coin.slot) := by
  unfold Cache.best?
  cases c.firstOf? owner tier <;> rfl

/-- **The best coin** of a tier is the least by identifier. -/
theorem best? (h : Represents c l) (owner : String) (tier : Tier) :
    (c.best? owner tier).1 = (l.best? owner tier).1 ∧ Represents (c.best? owner tier).2 (l.best? owner tier).2 := by
  rw [best?_eq]
  refine h.choose ?_ fun e he => (h.firstOf?_eq_some he).1
  cases hf : c.firstOf? owner tier with
  | none =>
    symm
    rw [Option.map_none, List.argmin_eq_none, List.filter_eq_nil_iff]
    intro coin hc hsel
    obtain ⟨ho, ht⟩ := of_decide_eq_true hsel
    exact h.firstOf?_eq_none hf hc ho ht
  | some e =>
    obtain ⟨hc, ho, ht, hleast⟩ := h.firstOf?_eq_some hf
    refine (argmin_eq_some_of_lt (List.mem_filter.2 ⟨hc, decide_eq_true ⟨ho, ht⟩⟩) fun other hoc hne => ?_).symm
    obtain ⟨hoc, hsel⟩ := List.mem_filter.1 hoc
    obtain ⟨hoo, hot⟩ := of_decide_eq_true hsel
    exact hleast other hoc hoo hot hne

/-- The tiers are tried in turn, and one without a coin leaves the cache as it is. -/
theorem bestOf?_eq (owner : String) (tiers : List Tier) (c : Cache) :
    c.bestOf? owner tiers = ((tiers.findSome? (c.firstOf? owner)).map (·.coin),
      (tiers.findSome? (c.firstOf? owner)).elim c fun e => c.touch e.coin.slot) := by
  induction tiers with
  | nil => rfl
  | cons tier tiers ih =>
    rw [Cache.bestOf?, best?_eq, List.findSome?_cons]
    cases hf : c.firstOf? owner tier with
    | none => exact ih
    | some e => rfl

theorem mem_atOrBelow {tier other : Tier} : other ∈ tier.atOrBelow ↔ tier.rank ≤ other.rank := by
  cases tier <;> cases other <;> decide

theorem pairwise_atOrBelow (tier : Tier) : tier.atOrBelow.Pairwise fun t u => t.rank < u.rank := by
  cases tier <;> decide

/-- **The best coin of a tier or weaker** is the least by tier and identifier. -/
theorem bestOrWeaker? (h : Represents c l) (owner : String) (tier : Tier) :
    (c.bestOrWeaker? owner tier).1 = (l.bestOrWeaker? owner tier).1 ∧
      Represents (c.bestOrWeaker? owner tier).2 (l.bestOrWeaker? owner tier).2 := by
  rw [Cache.bestOrWeaker?, bestOf?_eq]
  refine h.choose ?_ fun e he => ?_
  · cases hf : tier.atOrBelow.findSome? (c.firstOf? owner) with
    | none =>
      symm
      rw [Option.map_none, List.argmin_eq_none, List.filter_eq_nil_iff]
      intro coin hc hsel
      obtain ⟨ho, ht⟩ := of_decide_eq_true hsel
      exact h.firstOf?_eq_none (List.findSome?_eq_none_iff.1 hf _ (mem_atOrBelow.2 ht)) hc ho rfl
    | some e =>
      obtain ⟨before, t, rest, htiers, hf, hbefore⟩ := List.findSome?_eq_some_iff.1 hf
      have hpair := pairwise_atOrBelow tier
      rw [htiers] at hpair
      have hafter := (List.pairwise_cons.1 (List.pairwise_append.1 hpair).2.1).1
      obtain ⟨hc, ho, ht, hleast⟩ := h.firstOf?_eq_some hf
      have hmem : t ∈ tier.atOrBelow := htiers ▸ List.mem_append_right _ List.mem_cons_self
      refine (argmin_eq_some_of_lt (List.mem_filter.2
        ⟨hc, decide_eq_true ⟨ho, ht ▸ mem_atOrBelow.1 hmem⟩⟩) fun other hoc hne => ?_).symm
      obtain ⟨hoc, hsel⟩ := List.mem_filter.1 hoc
      obtain ⟨hoo, hot⟩ := of_decide_eq_true hsel
      have hother := mem_atOrBelow.2 hot
      rw [htiers] at hother
      rw [Prod.Lex.toLex_lt_toLex, ht]
      rcases List.mem_append.1 hother with hin | hin
      · exact absurd rfl (h.firstOf?_eq_none (hbefore _ hin) hoc hoo)
      · rcases List.mem_cons.1 hin with heq | hin
        · exact .inr ⟨congrArg Tier.rank heq.symm, hleast other hoc hoo heq hne⟩
        · exact .inl (hafter _ hin)
  · obtain ⟨t, -, hf⟩ := List.exists_of_findSome?_eq_some he
    exact (h.firstOf?_eq_some hf).1

end Represents

end CoinRelay
