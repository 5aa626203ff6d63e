import CoinRelay.Proofs.Broker.Registry
import CoinRelay.Proofs.Broker.Run

/-!
# The journal of a broker for single use

Every coin that is accepted is entered into a journal, behind those accepted before, and what becomes of it is marked
there: fetched, or dropped by a purge (`record`, `journal`). The broker itself remembers only what is still listed.

- `Keeps`, `Keeps.after`: what the journal has as listed is what is listed, and for a user and a tier nothing is listed
  that was accepted before something fetched;
- `Keeps.fetch`: a fetch takes the first entry that waits, and finds nothing if none does;
- `Continues`, `continues_journal`: entries stay where they are, and what has become of them stays as it is.
-/

namespace CoinRelay.Broker

variable {b : Broker} {user : String} {tier : Tier}

/-! ## Entries -/

/-- What has become of a coin that was accepted. -/
inductive Fate
  | listed
  | fetched
  | purged
  deriving DecidableEq, Repr

/-- A coin that was accepted, as it was listed, and what has become of it. -/
structure Publication where
  listing : Listing
  fate : Fate := .listed
  deriving DecidableEq, Repr

namespace Publication

/-- The coin that was accepted. -/
def coin (p : Publication) : Coin := p.listing.coin

/-- A coin of the tier that the user owns. -/
def Of (user : String) (tier : Tier) (p : Publication) : Prop := p.coin.owner = user ∧ p.coin.tier = tier

instance (user : String) (tier : Tier) : DecidablePred (Of user tier) :=
  fun p => inferInstanceAs (Decidable (p.coin.owner = user ∧ p.coin.tier = tier))

/-- A coin of the tier that the user owns and that is still listed. -/
def Waits (user : String) (tier : Tier) (p : Publication) : Prop := p.fate = .listed ∧ p.Of user tier

instance (user : String) (tier : Tier) : DecidablePred (Waits user tier) :=
  fun p => inferInstanceAs (Decidable (p.fate = .listed ∧ p.Of user tier))

/-- The entry after a purge: it is purged if it was listed and does not outlive the purge. -/
def age (now : UInt64) (maxAge : Nat) (p : Publication) : Publication :=
  { p with fate := if p.fate = .listed ∧ ¬outlives now maxAge p.listing then .purged else p.fate }

end Publication

/-- Marks the first coin of a tier that a user owns and that is still listed as fetched. -/
def takeFirst (user : String) (tier : Tier) : List Publication → List Publication
  | [] => []
  | p :: ps => if p.Waits user tier then { p with fate := .fetched } :: ps else p :: takeFirst user tier ps

/-- Enters an operation on a broker into a journal. -/
def record (op : Operation) (b : Broker) (entries : List Publication) : List Publication :=
  match op with
  | .publish coins => entries ++ (b.accepted coins).map fun coin => { listing := listing b.clock.now coin }
  | .fetch user tier => takeFirst user tier entries
  | .purge now => entries.map (·.age now b.config.maxAge)
  | .count _ | .route _ | .drain _ | .clock _ => entries

/-- The journal of a run on a broker, behind the entries made before. -/
def journal : List Operation → Broker → List Publication → List Publication
  | [], _, entries => entries
  | op :: ops, b, entries => journal ops (op.after b) (record op b entries)

theorem journal_append (ops more : List Operation) (b : Broker) (entries : List Publication) :
    journal (ops ++ more) b entries = journal more (run ops b) (journal ops b entries) := by
  induction ops generalizing b entries with
  | nil => rfl
  | cons op ops ih => exact ih (op.after b) (record op b entries)

/-- The entries for a user and a tier of which one thing has become. -/
def part (fate : Fate) (user : String) (tier : Tier) (entries : List Publication) : List Publication :=
  entries.filter fun p => p.fate = fate ∧ p.Of user tier

/-- The listings of a user that a journal has as listed. -/
def standing (user : String) (entries : List Publication) : List Listing :=
  (entries.filter fun p => p.fate = .listed ∧ p.coin.owner = user).map (·.listing)

theorem standing_append (user : String) (entries others : List Publication) :
    standing user (entries ++ others) = standing user entries ++ standing user others := by
  simp only [standing, List.filter_append, List.map_append]

theorem mem_standing {l : Listing} {entries : List Publication} :
    l ∈ standing user entries ↔ ∃ p ∈ entries, (p.fate = .listed ∧ p.coin.owner = user) ∧ p.listing = l := by
  simp only [standing, List.mem_map, List.mem_filter, decide_eq_true_eq, and_assoc]

/-- What waits for a fetch is what is listed of the tier. -/
theorem part_listed (user : String) (tier : Tier) (entries : List Publication) :
    (part .listed user tier entries).map (·.listing) =
      (standing user entries).filter (·.coin.tier = tier) := by
  rw [standing, List.filter_map, List.filter_filter]
  congr 1
  refine List.filter_congr fun p _ => ?_
  rw [Function.comp_apply, ← Bool.decide_and, decide_eq_decide]
  constructor
  · rintro ⟨hf, hu, ht⟩
    exact ⟨ht, hf, hu⟩
  · rintro ⟨ht, hf, hu⟩
    exact ⟨hf, hu, ht⟩

/-! ## What a journal keeps -/

/-- Of a user and a tier, nothing listed was accepted before something fetched. -/
def InOrder (entries : List Publication) : Prop :=
  entries.Pairwise fun p q =>
    q.fate = .fetched → p.coin.owner = q.coin.owner → p.coin.tier = q.coin.tier → p.fate ≠ .listed

/-- The journal has as listed what is listed, and is in order. -/
structure Keeps (entries : List Publication) (b : Broker) : Prop where
  listed : ∀ user, standing user entries = b.listings.of user
  inOrder : InOrder entries

theorem Keeps.empty (config : Config) (clock : Clock) : Keeps [] { config, clock } where
  listed user := (Registry.of_empty user).symm
  inOrder := .nil

/-- Entries that have nothing to do with the listings of a broker stay good for it. -/
theorem Keeps.congr {entries : List Publication} {b' : Broker} (h : Keeps entries b)
    (hb : b'.listings = b.listings) : Keeps entries b' where
  listed user := hb ▸ h.listed user
  inOrder := h.inOrder

/-! ### Publishing -/

theorem standing_listing (now : UInt64) (user : String) (coins : List Coin) :
    standing user (coins.map fun coin => { listing := listing now coin }) =
      (coins.filter (·.owner = user)).map (listing now) := by
  rw [standing, List.filter_map, List.map_map]
  congr 1
  refine List.filter_congr fun coin _ => ?_
  simp [Publication.coin, listing]

theorem Keeps.publish {entries : List Publication} (h : Keeps entries b) (coins : List Coin) :
    Keeps (record (.publish coins) b entries) (b.publish coins).2 where
  listed user := by rw [record, standing_append, standing_listing, h.listed, listings_publish]
  inOrder := by
    refine List.pairwise_append.2 ⟨h.inOrder, ?_, ?_⟩
    · exact List.pairwise_map.2 (List.pairwise_of_forall fun _ _ hfate => by cases hfate)
    · intro p _ q hq hfate
      obtain ⟨coin, -, rfl⟩ := List.mem_map.1 hq
      cases hfate

/-! ### Fetching -/

/-- The first coin that waits is marked, if any waits. -/
theorem takeFirst_cases (user : String) (tier : Tier) (entries : List Publication) :
    ((∀ p ∈ entries, ¬p.Waits user tier) ∧ takeFirst user tier entries = entries) ∨
      ∃ before p after, entries = before ++ p :: after ∧ (∀ q ∈ before, ¬q.Waits user tier) ∧ p.Waits user tier ∧
        takeFirst user tier entries = before ++ { p with fate := .fetched } :: after := by
  fun_induction takeFirst user tier entries with
  | case1 => exact .inl ⟨List.forall_mem_nil _, rfl⟩
  | case2 p ps hp => exact .inr ⟨[], p, ps, rfl, List.forall_mem_nil _, hp, rfl⟩
  | case3 p ps hp ih =>
    rcases ih with ⟨hnone, heq⟩ | ⟨before, q, after, hps, hbefore, hq, heq⟩
    · exact .inl ⟨List.forall_mem_cons.2 ⟨hp, hnone⟩, congrArg (p :: ·) heq⟩
    · exact .inr ⟨p :: before, q, after, congrArg (p :: ·) hps, List.forall_mem_cons.2 ⟨hp, hbefore⟩, hq,
        congrArg (p :: ·) heq⟩

/-- **Fetching** takes the first coin that waits, and finds none if none waits. -/
theorem Keeps.fetch {entries : List Publication} (h : Keeps entries b) (hb : b.config.dispense = .singleUse)
    (user : String) (tier : Tier) :
    ((∀ p ∈ entries, ¬p.Waits user tier) ∧ takeFirst user tier entries = entries ∧ b.fetch user tier = (none, b)) ∨
      ∃ before p after, entries = before ++ p :: after ∧ (∀ q ∈ before, ¬q.Waits user tier) ∧ p.Waits user tier ∧
        takeFirst user tier entries = before ++ { p with fate := .fetched } :: after ∧
        b.fetch user tier =
          (some p.coin, { b with listings := b.listings.put user (standing user (before ++ after)) }) := by
  -- what is listed of the tier waits
  have htier : ∀ ps : List Publication, (∀ p ∈ ps, ¬p.Waits user tier) →
      ∀ l ∈ standing user ps, l.coin.tier ≠ tier := by
    intro ps hps l hl ht
    obtain ⟨p, hp, ⟨hlisted, howner⟩, rfl⟩ := mem_standing.1 hl
    exact hps p hp ⟨hlisted, howner, ht⟩
  rcases takeFirst_cases user tier entries with ⟨hnone, heq⟩ | ⟨before, p, after, rfl, hbefore, hp, heq⟩
  · exact .inl ⟨hnone, heq, fetch_of_forall_ne (h.listed user ▸ htier entries hnone)⟩
  · refine .inr ⟨before, p, after, rfl, hbefore, hp, heq, ?_⟩
    have hof : b.listings.of user = standing user before ++ p.listing :: standing user after := by
      rw [← h.listed, standing_append, standing, standing, List.filter_cons_of_pos, List.map_cons]
      · rfl
      · exact decide_eq_true ⟨hp.1, hp.2.1⟩
    rw [fetch_of_append hof (htier before hbefore) hp.2.2, hb, standing_append]
    rfl

/-- Marking an entry as fetched takes it out of its owner's listings, and leaves the others. -/
theorem standing_fetched {before after : List Publication} {p : Publication} (hp : p.Waits user tier)
    (other : String) :
    standing other (before ++ { p with fate := .fetched } :: after) =
      if other = user then standing user (before ++ after) else standing other (before ++ p :: after) := by
  simp only [standing_append]
  have hmarked : standing other ({ p with fate := .fetched } :: after) = standing other after := by
    rw [standing, List.filter_cons_of_neg (by simp)]
    rfl
  rw [hmarked]
  split
  · next hu => rw [hu]
  · next hu =>
    have howner : p.coin.owner ≠ other := fun h => hu (h.symm.trans hp.2.1)
    congr 1
    rw [standing, standing, List.filter_cons_of_neg (by simp [howner])]

/-- The first entry that waits may be marked as fetched. -/
theorem InOrder.fetched {before after : List Publication} {p : Publication} (h : InOrder (before ++ p :: after))
    (hbefore : ∀ q ∈ before, ¬q.Waits user tier) (hp : p.Waits user tier) :
    InOrder (before ++ { p with fate := .fetched } :: after) := by
  obtain ⟨hfront, hrest, hcross⟩ := List.pairwise_append.1 h
  obtain ⟨-, hafter⟩ := List.pairwise_cons.1 hrest
  refine List.pairwise_append.2 ⟨hfront, List.pairwise_cons.2 ⟨fun q _ _ _ _ hlisted => ?_, hafter⟩, ?_⟩
  · cases hlisted
  · intro q hq r hr
    rcases List.mem_cons.1 hr with rfl | hr
    · -- an entry before the one marked that were listed would have waited
      intro _ howner htier hlisted
      exact hbefore q hq ⟨hlisted, howner.trans hp.2.1, htier.trans hp.2.2⟩
    · exact hcross q hq r (List.mem_cons_of_mem p hr)

theorem Keeps.after_fetch {entries : List Publication} (h : Keeps entries b) (hb : b.config.dispense = .singleUse)
    (user : String) (tier : Tier) : Keeps (takeFirst user tier entries) (b.fetch user tier).2 := by
  rcases h.fetch hb user tier with ⟨-, heq, hfetch⟩ | ⟨before, p, after, rfl, hbefore, hp, heq, hfetch⟩
  · rw [heq, hfetch]
    exact h
  · rw [heq, hfetch]
    constructor
    · intro other
      rw [standing_fetched hp, Registry.of_put]
      split
      · rfl
      · exact h.listed other
    · exact h.inOrder.fetched hbefore hp

/-! ### Purging -/

theorem standing_age (now : UInt64) (maxAge : Nat) (user : String) (entries : List Publication) :
    standing user (entries.map (·.age now maxAge)) = (standing user entries).filter (outlives now maxAge) := by
  rw [standing, standing, List.filter_map, List.map_map, List.filter_map, List.filter_filter]
  congr 1
  refine List.filter_congr fun p _ => ?_
  simp only [Function.comp_apply, Publication.age, Publication.coin]
  by_cases hlisted : p.fate = .listed <;> cases outlives now maxAge p.listing <;> simp [hlisted]

theorem Keeps.purge {entries : List Publication} (h : Keeps entries b) (now : UInt64) :
    Keeps (record (.purge now) b entries) (b.purge now).2 where
  listed user := by
    rw [record, standing_age, h.listed]
    exact (Registry.of_retain ..).symm
  inOrder := by
    refine List.pairwise_map.2 (h.inOrder.imp fun {p q} hpq hq howner htier hp => ?_)
    simp only [Publication.age] at hp hq
    split at hq
    · cases hq
    · split at hp
      · cases hp
      · exact hpq hq howner htier hp

/-! ### Operations -/

/-- **Each operation keeps the journal.** -/
theorem Keeps.after {entries : List Publication} (h : Keeps entries b) (hb : b.config.dispense = .singleUse)
    (op : Operation) : Keeps (record op b entries) (op.after b) := by
  cases op with
  | publish coins => exact h.publish coins
  | fetch user tier => exact h.after_fetch hb user tier
  | route packet => exact h.congr (listings_route packet b)
  | purge now => exact h.purge now
  | count user => exact h
  | drain user => exact h.congr rfl
  | clock reading => exact h.congr rfl

/-! ## What lasts -/

/-- A later journal: entries are where they were, and what had become of them is as it was. -/
def Continues (entries later : List Publication) : Prop :=
  ∀ (i : Nat) (p : Publication), entries[i]? = some p →
    ∃ q, later[i]? = some q ∧ q.listing = p.listing ∧ (p.fate ≠ .listed → q.fate = p.fate)

theorem Continues.refl (entries : List Publication) : Continues entries entries :=
  fun _ p hp => ⟨p, hp, rfl, fun _ => rfl⟩

theorem Continues.trans {entries later last : List Publication} (h : Continues entries later)
    (hlast : Continues later last) : Continues entries last := by
  intro i p hp
  obtain ⟨q, hq, hlisting, hfate⟩ := h i p hp
  obtain ⟨r, hr, hlisting', hfate'⟩ := hlast i q hq
  refine ⟨r, hr, hlisting'.trans hlisting, fun hne => ?_⟩
  have hsame := hfate hne
  exact (hfate' (hsame ▸ hne)).trans hsame

theorem continues_takeFirst (user : String) (tier : Tier) (entries : List Publication) :
    Continues entries (takeFirst user tier entries) := by
  rcases takeFirst_cases user tier entries with ⟨-, heq⟩ | ⟨before, p, after, rfl, -, hp, heq⟩
  · rw [heq]
    exact .refl entries
  · rw [heq]
    intro i q hq
    by_cases hi : i = before.length
    · subst hi
      rw [List.getElem?_append_right (Nat.le_refl _), Nat.sub_self] at hq ⊢
      cases hq
      exact ⟨_, rfl, rfl, fun hne => absurd hp.1 hne⟩
    · refine ⟨q, ?_, rfl, fun _ => rfl⟩
      rw [← hq, List.getElem?_append, List.getElem?_append]
      split
      · rfl
      · rw [List.getElem?_cons, List.getElem?_cons, if_neg (by omega), if_neg (by omega)]

/-- **An operation only goes on** with a journal. -/
theorem continues_record (op : Operation) (b : Broker) (entries : List Publication) :
    Continues entries (record op b entries) := by
  cases op with
  | publish coins =>
    intro i p hp
    exact ⟨p, List.getElem?_append_left (List.getElem?_eq_some_iff.1 hp).1 ▸ hp, rfl, fun _ => rfl⟩
  | fetch user tier => exact continues_takeFirst user tier entries
  | purge now =>
    intro i p hp
    refine ⟨p.age now b.config.maxAge, by rw [record, List.getElem?_map, hp]; rfl, rfl, fun hne => ?_⟩
    exact if_neg fun h => hne h.1
  | count | route | drain | clock => exact .refl entries

theorem continues_journal (ops : List Operation) (b : Broker) (entries : List Publication) :
    Continues entries (journal ops b entries) := by
  induction ops generalizing b entries with
  | nil => exact .refl entries
  | cons op ops ih => exact (continues_record op b entries).trans (ih (op.after b) (record op b entries))

end CoinRelay.Broker
