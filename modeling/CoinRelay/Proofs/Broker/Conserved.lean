import CoinRelay.Proofs.Broker.Journal

/-!
# Conservation at a broker for single use

Of every user and tier, the coins that a broker for single use accepted are those it handed out, those it purged and
those it lists, each in one place only; and a fetch hands out the oldest that is still listed (`conserves_publications`).

- `Books`, `Books.concat`: what a journal tells of the coins agrees with what was told from outside, operation by
  operation;
- `Keeps.size`: the coins listed are counted in the journal;
- `Conserved`: the accepted coins of one user and tier, and what became of them.
-/

namespace CoinRelay.Broker

variable {b start : Broker} {entries : List Publication} {user : String} {tier : Tier}

/-! ## Parts of a journal -/

theorem part_append (fate : Fate) (user : String) (tier : Tier) (entries others : List Publication) :
    part fate user tier (entries ++ others) = part fate user tier entries ++ part fate user tier others :=
  List.filter_append ..

theorem part_cons (fate : Fate) (user : String) (tier : Tier) (p : Publication) (ps : List Publication) :
    part fate user tier (p :: ps) =
      (if p.fate = fate ∧ p.Of user tier then [p] else []) ++ part fate user tier ps := by
  rw [part, List.filter_cons]
  simp only [decide_eq_true_eq]
  split <;> rfl

/-- New entries are listed. -/
theorem part_new {fate : Fate} (h : fate ≠ .listed) (user : String) (tier : Tier) (now : UInt64) (coins : List Coin) :
    part fate user tier (coins.map fun coin => { listing := listing now coin }) = [] := by
  refine List.filter_eq_nil_iff.2 fun p hp => ?_
  obtain ⟨coin, -, rfl⟩ := List.mem_map.1 hp
  simp [h.symm]

/-- Nothing that was accepted after a coin that waits is fetched. -/
theorem Keeps.part_fetched_eq_nil {before after : List Publication} {p : Publication}
    (h : Keeps (before ++ p :: after) b) (hp : p.Waits user tier) : part .fetched user tier after = [] := by
  refine List.filter_eq_nil_iff.2 fun q hq hfetched => ?_
  obtain ⟨hfate, howner, htier⟩ := of_decide_eq_true hfetched
  have hcross := (List.pairwise_cons.1 (List.pairwise_append.1 h.inOrder).2.1).1 q hq
  exact hcross hfate (hp.2.1.trans howner.symm) (hp.2.2.trans htier.symm) hp.1

/-! ## One operation -/

/-- What is accepted is entered. -/
theorem coins_record (op : Operation) (b : Broker) (entries : List Publication) :
    (record op b entries).map (·.coin) = entries.map (·.coin) ++ op.accepted b := by
  cases op with
  | publish coins =>
    rw [record, List.map_append, List.map_map]
    exact congrArg _ (List.map_id _)
  | fetch user tier =>
    rw [record]
    rcases takeFirst_cases user tier entries with ⟨-, heq⟩ | ⟨before, p, after, rfl, -, -, heq⟩
    · rw [heq]
      exact (List.append_nil _).symm
    · rw [heq, List.map_append, List.map_append]
      exact (List.append_nil _).symm
  | purge now =>
    rw [record, List.map_map]
    exact (List.append_nil _).symm
  | count | route | drain | clock => exact (List.append_nil _).symm

/-- The coin that a fetch hands out becomes the last of those fetched for its user and tier. -/
theorem Keeps.fetched_takeFirst (h : Keeps entries b) (hb : b.config.dispense = .singleUse)
    (user : String) (tier : Tier) (other : String) (level : Tier) :
    (part .fetched user tier (takeFirst other level entries)).map (·.coin) =
      (part .fetched user tier entries).map (·.coin) ++ (Operation.fetch other level).grantedTo user tier b := by
  rcases h.fetch hb other level with ⟨-, heq, hfetch⟩ | ⟨before, p, after, rfl, -, hp, heq, hfetch⟩
  · rw [heq, Operation.grantedTo_of_none (by rw [hfetch]), List.append_nil]
  · have hunmarked : ¬(p.fate = .fetched ∧ p.Of user tier) := by
      rintro ⟨hfetched, -⟩
      rw [hp.1] at hfetched
      cases hfetched
    rw [heq, part_append, part_append, part_cons, part_cons, if_neg hunmarked]
    by_cases hsame : other = user ∧ level = tier
    · obtain ⟨rfl, rfl⟩ := hsame
      rw [if_pos ⟨rfl, hp.2⟩, Operation.grantedTo_self, hfetch, h.part_fetched_eq_nil hp, List.map_append]
      simp only [List.append_nil]
      rfl
    · have hother : ¬p.Of user tier := by
        rintro ⟨howner, htier⟩
        exact hsame ⟨hp.2.1.symm.trans howner, hp.2.2.symm.trans htier⟩
      rw [if_neg fun hof => hother hof.2, Operation.grantedTo_of_ne hsame, List.append_nil]

/-- The part of a journal of which one thing has become after a purge. -/
theorem part_age (fate : Fate) (user : String) (tier : Tier) (now : UInt64) (maxAge : Nat)
    (entries : List Publication) :
    (part fate user tier (entries.map (·.age now maxAge))).map (·.listing) =
      (entries.filter fun p => (p.age now maxAge).fate = fate ∧ p.Of user tier).map (·.listing) := by
  rw [part, List.filter_map, List.map_map]
  rfl

/-- A purge marks nothing as fetched, and nothing that was fetched. -/
theorem fate_age_eq_fetched {now : UInt64} {maxAge : Nat} {p : Publication} :
    (p.age now maxAge).fate = .fetched ↔ p.fate = .fetched := by
  simp only [Publication.age]
  split
  · next h => simp [h.1]
  · rfl

/-- What a fetch hands out joins, as the last, what was fetched for the user and the tier; nothing else does. -/
theorem Keeps.fetched_record (h : Keeps entries b) (hb : b.config.dispense = .singleUse) (op : Operation)
    (user : String) (tier : Tier) :
    (part .fetched user tier (record op b entries)).map (·.coin) =
      (part .fetched user tier entries).map (·.coin) ++ op.grantedTo user tier b := by
  cases op with
  | fetch other level => exact h.fetched_takeFirst hb user tier other level
  | publish coins =>
    rw [record, part_append, part_new (by decide), List.append_nil]
    exact (List.append_nil _).symm
  | purge now =>
    have hage := part_age .fetched user tier now b.config.maxAge entries
    simp only [fate_age_eq_fetched] at hage
    have hcoins := congrArg (List.map (·.coin)) hage
    rw [List.map_map, List.map_map] at hcoins
    exact hcoins.trans (List.append_nil _).symm
  | count | route | drain | clock => exact (List.append_nil _).symm

/-- What a purge withdraws is what does not outlive it. -/
theorem withdrawn_purge (user : String) (now : UInt64) (b : Broker) :
    (Operation.purge now).withdrawn user b =
      (b.listings.of user).filter fun l => !outlives now b.config.maxAge l := by
  rw [Operation.withdrawn, purge, Registry.of_retain]
  refine List.filter_congr fun l hl => ?_
  cases ho : outlives now b.config.maxAge l <;> simp [hl, ho]

/-- A purge marks what it withdraws. -/
theorem Keeps.purged_age (h : Keeps entries b) (user : String) (tier : Tier) (now : UInt64) :
    ((part .purged user tier (entries.map (·.age now b.config.maxAge))).map (·.listing)).Perm
      ((part .purged user tier entries).map (·.listing) ++
        ((Operation.purge now).withdrawn user b).filter (·.coin.tier = tier)) := by
  -- what is purged now was purged before or is withdrawn
  let marked := entries.filter fun p => (p.age now b.config.maxAge).fate = .purged ∧ p.Of user tier
  have hbefore : marked.filter (·.fate = .purged) = part .purged user tier entries := by
    rw [List.filter_filter]
    refine List.filter_congr fun p _ => ?_
    by_cases hp : p.fate = .purged <;> simp [Publication.age, hp]
  have hnow : (marked.filter fun p => !decide (p.fate = .purged)).map (·.listing) =
      ((Operation.purge now).withdrawn user b).filter (·.coin.tier = tier) := by
    rw [withdrawn_purge, ← h.listed, standing, List.filter_map, List.filter_map, List.filter_filter,
      List.filter_filter, List.filter_filter]
    congr 1
    refine List.filter_congr fun p _ => ?_
    cases hp : p.fate <;>
      simp [Publication.age, Publication.Of, Publication.coin, hp, Bool.and_comm, Bool.and_assoc]
  rw [part_age, ← hbefore, ← hnow, ← List.map_append]
  exact ((List.filter_append_perm _ marked).map _).symm

/-- A purge marks what it withdraws; nothing else marks coins as purged. -/
theorem Keeps.purged_record (h : Keeps entries b) (op : Operation) (user : String) (tier : Tier) :
    ((part .purged user tier (record op b entries)).map (·.listing)).Perm
      ((part .purged user tier entries).map (·.listing) ++ (op.withdrawn user b).filter (·.coin.tier = tier)) := by
  cases op with
  | purge now => exact h.purged_age user tier now
  | publish coins =>
    rw [record, part_append, part_new (by decide), List.append_nil]
    exact .of_eq (List.append_nil _).symm
  | fetch other level =>
    refine .of_eq (Eq.trans ?_ (List.append_nil _).symm)
    rw [record]
    rcases takeFirst_cases other level entries with ⟨-, heq⟩ | ⟨before, p, after, rfl, -, hp, heq⟩
    · rw [heq]
    · rw [heq, part_append, part_append, part_cons, part_cons, if_neg, if_neg]
      · simp [hp.1]
      · simp
  | count | route | drain | clock => exact .of_eq (List.append_nil _).symm

/-! ## Numbers -/

/-- How many entries one thing has become of. -/
def tally (fate : Fate) (entries : List Publication) : Nat := entries.countP (·.fate = fate)

/-- **One thing has become of every entry.** -/
theorem length_eq_tally (entries : List Publication) :
    entries.length = tally .listed entries + tally .fetched entries + tally .purged entries := by
  unfold tally
  induction entries with
  | nil => rfl
  | cons p ps ih =>
    simp only [List.countP_cons, List.length_cons, ih]
    cases p.fate <;> simp <;> omega

/-- **The coins listed** are those that a journal has as listed. -/
theorem Keeps.size (h : Keeps entries b) : b.listings.size = tally .listed entries := by
  let owners := (entries.filter (·.fate = .listed)).map (·.coin.owner)
  have hcount : ∀ u, (b.listings.of u).length = owners.count u := by
    intro u
    rw [← h.listed, standing, List.length_map, List.count, List.countP_map, List.countP_filter,
      List.countP_eq_length_filter]
    congr 1
    refine List.filter_congr fun p _ => ?_
    rw [Bool.eq_iff_iff]
    simp [and_comm]
  have hsize : b.listings.size = ∑ u ∈ owners.toFinset, (b.listings.of u).length := by
    refine Registry.size_eq_sum _ fun u hu => List.mem_toFinset.2 ?_
    rw [← List.count_pos_iff, ← hcount]
    exact List.length_pos_iff.2 hu
  rw [hsize, Finset.sum_congr rfl fun u _ => hcount u, List.sum_toFinset_count_eq_length, List.length_map, tally,
    List.countP_eq_length_filter]

/-- New entries are listed. -/
theorem tally_new {fate : Fate} (h : fate ≠ .listed) (entries : List Publication) (now : UInt64) (coins : List Coin) :
    tally fate (entries ++ coins.map fun coin => { listing := listing now coin }) = tally fate entries := by
  rw [tally, List.countP_append, tally, Nat.add_eq_left]
  refine List.countP_eq_zero.2 fun p hp => ?_
  obtain ⟨coin, -, rfl⟩ := List.mem_map.1 hp
  simp [h.symm]

/-- As many entries are marked as fetched as coins are handed out. -/
theorem Keeps.tally_fetched_record (h : Keeps entries b) (hb : b.config.dispense = .singleUse) (op : Operation) :
    tally .fetched (record op b entries) = tally .fetched entries + (op.granted b).length := by
  cases op with
  | fetch user tier =>
    rw [record, Operation.granted]
    rcases h.fetch hb user tier with ⟨-, heq, hfetch⟩ | ⟨before, p, after, rfl, -, hp, heq, hfetch⟩
    · rw [heq, hfetch]
      rfl
    · rw [heq, hfetch]
      simp [tally, List.countP_append, hp.1, Nat.add_assoc]
  | publish coins => exact tally_new (by decide) entries b.clock.now _
  | purge now =>
    rw [record, tally, List.countP_map]
    exact List.countP_congr fun p _ => by simp [fate_age_eq_fetched]
  | count | route | drain | clock => rfl

/-- As many entries are marked as purged as a purge tells to have dropped. -/
theorem Keeps.tally_purged_record (h : Keeps entries b) (hb : b.config.dispense = .singleUse) (op : Operation) :
    tally .purged (record op b entries) = tally .purged entries + (op.dropped b).sum := by
  cases op with
  | purge now =>
    -- all that a purge takes out of the listings is marked as purged
    have hfetched := h.tally_fetched_record hb (.purge now)
    have htotal := length_eq_tally entries
    have htotal' := length_eq_tally (record (.purge now) b entries)
    have hle : tally .listed (record (.purge now) b entries) ≤ tally .listed entries := by
      rw [record, tally, List.countP_map]
      refine List.countP_mono_left fun p _ hp => ?_
      simp only [Function.comp_apply, Publication.age, decide_eq_true_eq] at hp ⊢
      split at hp
      · cases hp
      · exact hp
    have hdropped : ((Operation.purge now).dropped b).sum =
        tally .listed entries - tally .listed (record (.purge now) b entries) := by
      rw [← h.size, ← (h.purge now).size]
      rfl
    have hlength : (record (.purge now) b entries).length = entries.length := List.length_map _
    have hgranted : ((Operation.purge now).granted b).length = 0 := rfl
    omega
  | fetch user tier =>
    rw [record]
    rcases takeFirst_cases user tier entries with ⟨-, heq⟩ | ⟨before, p, after, rfl, -, hp, heq⟩
    · rw [heq]
      rfl
    · rw [heq]
      simp [tally, List.countP_append, hp.1, Operation.dropped]
  | publish coins => exact tally_new (by decide) entries b.clock.now _
  | count | route | drain | clock => rfl

/-! ## Runs -/

/-- What a journal of a run tells of the coins is what was told of them from outside. -/
structure Books (start : Broker) (ops : List Operation) : Prop where
  keeps : Keeps (journal ops start []) (run ops start)
  accepted : (journal ops start []).map (·.coin) = gather Operation.accepted ops start
  fetched : ∀ user tier, (part .fetched user tier (journal ops start [])).map (·.coin) =
    gather (Operation.grantedTo user tier) ops start
  purged : ∀ user tier, ((part .purged user tier (journal ops start [])).map (·.listing)).Perm
    ((gather (Operation.withdrawn user) ops start).filter (·.coin.tier = tier))
  granted : tally .fetched (journal ops start []) = (gather Operation.granted ops start).length
  dropped : tally .purged (journal ops start []) = (gather Operation.dropped ops start).sum

theorem Books.nil (config : Config) (clock : Clock) : Books { config, clock } [] where
  keeps := .empty config clock
  accepted := rfl
  fetched _ _ := rfl
  purged _ _ := .nil
  granted := rfl
  dropped := rfl

/-- **Each operation keeps the books.** -/
theorem Books.concat {ops : List Operation} (h : Books start ops) (hs : start.config.dispense = .singleUse)
    (op : Operation) : Books start (ops ++ [op]) := by
  have hb : (run ops start).config.dispense = .singleUse := by rw [config_run, hs]
  have hjournal : journal (ops ++ [op]) start [] = record op (run ops start) (journal ops start []) :=
    journal_append ops [op] start []
  have hrun : run (ops ++ [op]) start = op.after (run ops start) := run_append ops [op] start
  constructor
  · rw [hjournal, hrun]
    exact h.keeps.after hb op
  · rw [hjournal, gather_concat, ← h.accepted]
    exact coins_record op _ _
  · intro user tier
    rw [hjournal, gather_concat, ← h.fetched]
    exact h.keeps.fetched_record hb op user tier
  · intro user tier
    rw [hjournal, gather_concat, List.filter_append]
    exact (h.keeps.purged_record op user tier).trans ((h.purged user tier).append_right _)
  · rw [hjournal, gather_concat, List.length_append, ← h.granted]
    exact h.keeps.tally_fetched_record hb op
  · rw [hjournal, gather_concat, List.sum_append, ← h.dropped]
    exact h.keeps.tally_purged_record hb op

theorem books_run {config : Config} (h : config.dispense = .singleUse) (clock : Clock) (ops : List Operation) :
    Books { config, clock } ops := by
  induction ops using List.reverseRecOn with
  | nil => exact .nil config clock
  | append_singleton ops op ih => exact ih.concat h op

/-! ## Conservation -/

/-- The coins of a tier that were accepted for a user in a run, and what became of them. -/
structure Conserved (start : Broker) (ops : List Operation) (user : String) (tier : Tier) : Prop where
  /-- The journal has them all, in the order in which they were accepted. -/
  accepted : ((journal ops start []).filter (·.Of user tier)).map (·.coin) =
    (gather Operation.accepted ops start).filter fun coin => coin.owner = user ∧ coin.tier = tier
  /-- Those fetched are, in this order, what fetches handed out. -/
  fetched : (part .fetched user tier (journal ops start [])).map (·.coin) =
    gather (Operation.grantedTo user tier) ops start
  /-- Those purged are what purges left out. -/
  purged : ((part .purged user tier (journal ops start [])).map (·.listing)).Perm
    ((gather (Operation.withdrawn user) ops start).filter (·.coin.tier = tier))
  /-- The others are listed, in this order. -/
  listed : (part .listed user tier (journal ops start [])).map (·.listing) =
    ((run ops start).listings.of user).filter (·.coin.tier = tier)
  /-- A fetch hands out the first that is listed and marks it, unless none is listed. -/
  next : match ((run ops start).fetch user tier).1 with
    | none => ∀ p ∈ journal ops start [], ¬p.Waits user tier
    | some coin => ∃ before p after, journal ops start [] = before ++ p :: after ∧
        (∀ q ∈ before, ¬q.Waits user tier) ∧ p.Waits user tier ∧ p.coin = coin ∧
        journal (ops ++ [.fetch user tier]) start [] = before ++ { p with fate := .fetched } :: after

theorem Books.conserved {ops : List Operation} (h : Books start ops) (hs : start.config.dispense = .singleUse)
    (user : String) (tier : Tier) : Conserved start ops user tier where
  accepted := by
    rw [← h.accepted, List.filter_map]
    rfl
  fetched := h.fetched user tier
  purged := h.purged user tier
  listed := by rw [part_listed, h.keeps.listed]
  next := by
    have hb : (run ops start).config.dispense = .singleUse := by rw [config_run, hs]
    have hjournal : journal (ops ++ [.fetch user tier]) start [] = takeFirst user tier (journal ops start []) :=
      journal_append ops [.fetch user tier] start []
    rcases h.keeps.fetch hb user tier with ⟨hnone, -, hfetch⟩ | ⟨before, p, after, hsplit, hbefore, hp, heq, hfetch⟩
    · rw [hfetch]
      exact hnone
    · rw [hfetch]
      exact ⟨before, p, after, hsplit, hbefore, hp, rfl, hjournal.trans heq⟩

/-- **A broker for single use keeps account of its coins.** After any run, for every user and tier, each accepted coin
was handed out, was purged or is listed, and a fetch hands out the oldest that is listed; what became of a coin stays
so; and the acknowledgements add up to the coins handed out, those purged and those listed. -/
theorem conserves_publications {config : Config} (h : config.dispense = .singleUse) (clock : Clock)
    (ops : List Operation) :
    (∀ user tier, Conserved { config, clock } ops user tier) ∧
      (∀ more, Continues (journal ops { config, clock } []) (journal (ops ++ more) { config, clock } [])) ∧
      (gather Operation.accepted ops { config, clock }).length =
        (gather Operation.granted ops { config, clock }).length +
          (gather Operation.dropped ops { config, clock }).sum + (run ops { config, clock }).stats.coins ∧
      (CountersFit ops { config, clock } →
        ((gather Operation.acks ops { config, clock }).map (·.accepted.toNat)).sum =
          (gather Operation.granted ops { config, clock }).length +
            (gather Operation.dropped ops { config, clock }).sum + (run ops { config, clock }).stats.coins) := by
  have hbooks := books_run h clock ops
  have hcoins : (gather Operation.accepted ops { config, clock }).length =
      (gather Operation.granted ops { config, clock }).length +
        (gather Operation.dropped ops { config, clock }).sum + (run ops { config, clock }).stats.coins := by
    have hsize : (run ops { config, clock }).stats.coins = _ := hbooks.keeps.size
    rw [← hbooks.accepted, List.length_map, length_eq_tally, ← hbooks.granted, ← hbooks.dropped, hsize]
    omega
  refine ⟨hbooks.conserved h, fun more => ?_, hcoins, fun hfit => (sum_acks hfit).trans hcoins⟩
  rw [journal_append]
  exact continues_journal more _ _

/-- A broker for single use, at which coins grow stale after five seconds. -/
def counter : Config := { dispense := .singleUse, staleAfter := 5000 }

/-- A gold coin of Ann's. -/
def annsCoin (keyId : UInt64) : Coin :=
  { owner := "ann", keyId := ⟨keyId⟩, tier := .gold, publicKey := "ab", signature := "00" }

/-- Of three coins of Ann's the first is fetched, the second grows stale and the third stays. -/
def errands : List Operation :=
  [.publish [annsCoin 1, annsCoin 2], .fetch "ann" .gold, .clock ⟨9⟩, .publish [annsCoin 3], .purge 9]

theorem conserves_publications_errands :
    counter.dispense = .singleUse ∧ CountersFit errands { config := counter, clock := ⟨0⟩ } ∧
      Conserved { config := counter, clock := ⟨0⟩ } errands "ann" .gold ∧
      ((gather Operation.acks errands { config := counter, clock := ⟨0⟩ }).map (·.accepted.toNat)).sum =
        (gather Operation.granted errands { config := counter, clock := ⟨0⟩ }).length +
          (gather Operation.dropped errands { config := counter, clock := ⟨0⟩ }).sum +
          (run errands { config := counter, clock := ⟨0⟩ }).stats.coins ∧
      (journal errands { config := counter, clock := ⟨0⟩ } []).map (·.fate) = [.fetched, .purged, .listed] := by
  have hsingle : counter.dispense = .singleUse := rfl
  have hfit : CountersFit errands { config := counter, clock := ⟨0⟩ } := countersFit_of_forall_length (by decide) _
  obtain ⟨hconserved, -, -, hsum⟩ := conserves_publications hsingle ⟨0⟩ errands
  exact ⟨hsingle, hfit, hconserved "ann" .gold, hsum hfit, by decide +kernel⟩

end CoinRelay.Broker
