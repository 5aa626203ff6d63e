import CoinRelay.Proofs.Broker.Operation
import Mathlib.Data.List.Induction

/-!
# Batches of coins

A batch is refused for the first of its coins that has a fault, or its new coins are listed (`publish_batch`). A coin is
new when its owner lists none under its identifier, neither before the batch nor by an earlier part of it (`fresh`).

- `Coin.faults`, `Coin.fault?_eq`: all faults of a coin, the first of which is told;
- `lists_enlistAll_iff`: the identifiers that are listed after a batch;
- `admitted_eq_fresh`: the coins that get listed one after the other are the new ones;
- `publish_append`, `publish_eq_foldl`, `enlistAll_of_lists`: a batch in two parts, a batch coin by coin, and one whose
  coins are all listed.
-/

namespace CoinRelay

/-! ## Faults -/

/-- The faults of a coin, in the order of its fields. -/
def Coin.faults (c : Coin) : List RecordFault :=
  (if c.owner = "" then [.emptyOwner] else []) ++
    (if c.publicKey = "" ∨ Hex.isLower c.publicKey = false then [.publicKeyNotHex] else []) ++
      if c.signature = "" then [.missingSignature] else []

/-- The fault that a coin is refused for is its first. -/
theorem Coin.fault?_eq (c : Coin) : c.fault? = c.faults.head? := by
  unfold Coin.fault? Coin.faults
  by_cases howner : c.owner = ""
  · simp [howner]
  · by_cases hkey : c.publicKey = "" ∨ Hex.isLower c.publicKey = false
    · simp [howner, hkey]
    · by_cases hsignature : c.signature = "" <;> simp [howner, hkey, hsignature]

theorem Coin.check_of_head? {c : Coin} {fault : RecordFault} (h : c.faults.head? = some fault) :
    c.check = .error (.invalidRecord fault) := by
  simp only [Coin.check, Coin.fault?_eq, h]

theorem Coin.check_eq_ok_iff {c : Coin} : c.check = .ok () ↔ c.faults = [] := by
  unfold Coin.check
  rw [Coin.fault?_eq]
  cases c.faults <;> simp

namespace Broker

/-- The first coin of a batch that has a fault, its place and its first fault. -/
structure FirstFault (coins : List Coin) (index : Nat) (coin : Coin) (fault : RecordFault) : Prop where
  place : coins[index]? = some coin
  first : coin.faults.head? = some fault
  before : ∀ other ∈ coins.take index, other.faults = []

/-- A batch with a fault has a first one. -/
theorem exists_firstFault {coins : List Coin} (h : ¬∀ coin ∈ coins, coin.faults = []) :
    ∃ index coin fault, FirstFault coins index coin fault := by
  induction coins with
  | nil => exact absurd (fun _ hc => by cases hc) h
  | cons coin coins ih =>
    cases hcoin : coin.faults with
    | cons fault faults =>
      refine ⟨0, coin, fault, rfl, congrArg List.head? hcoin, ?_⟩
      intro other ho
      cases ho
    | nil =>
      have hrest : ¬∀ other ∈ coins, other.faults = [] := fun hall => h (List.forall_mem_cons.2 ⟨hcoin, hall⟩)
      obtain ⟨index, other, fault, hother, hfault, hbefore⟩ := ih hrest
      refine ⟨index + 1, other, fault, hother, hfault, ?_⟩
      rw [List.take_succ_cons]
      exact List.forall_mem_cons.2 ⟨hcoin, hbefore⟩

/-- A batch is refused for its first fault. -/
theorem FirstFault.invalid? {coins : List Coin} {index : Nat} {coin : Coin} {fault : RecordFault}
    (h : FirstFault coins index coin fault) :
    Broker.invalid? coins = some (.invalidCoin index (.invalidRecord fault)) := by
  obtain ⟨hlt, hcoin⟩ := List.getElem?_eq_some_iff.1 h.place
  have hsplit : coins = coins.take index ++ coin :: coins.drop (index + 1) := by
    rw [← hcoin, ← List.drop_eq_getElem_cons hlt, List.take_append_drop]
  have hlength : (coins.take index).length = index := List.length_take_of_le (Nat.le_of_lt hlt)
  have hbefore : Broker.invalid? (coins.take index) = none :=
    invalid?_eq_none_iff.2 fun other ho => Coin.check_eq_ok_iff.2 (h.before other ho)
  unfold Broker.invalid? at hbefore ⊢
  rw [hsplit, List.zipIdx_append, List.findSome?_append, hbefore, Option.none_or, List.zipIdx_cons, List.findSome?_cons,
    hlength]
  simp only [Coin.check_of_head? h.first, Nat.zero_add]

/-! ## New coins -/

variable {now : UInt64} {r : Registry Listing} {b : Broker} {coins : List Coin}

/-- The coins of a batch whose owners list none under the same identifier, neither before the batch nor by what comes
earlier in it. -/
def fresh (r : Registry Listing) (coins : List Coin) : List Coin :=
  (coins.zipIdx.filter fun (coin, index) =>
    ¬Lists r coin.owner coin.keyId ∧
      ∀ other ∈ coins.take index, ¬(other.owner = coin.owner ∧ other.keyId = coin.keyId)).map (·.1)

/-- **After a batch** the identifiers of its coins are listed, and those that were listed before. -/
theorem lists_enlistAll_iff {user : String} {keyId : KeyId} :
    Lists (enlistAll now r coins) user keyId ↔
      Lists r user keyId ∨ ∃ coin ∈ coins, coin.owner = user ∧ coin.keyId = keyId := by
  induction coins generalizing r with
  | nil => simp [enlistAll]
  | cons coin coins ih =>
    rw [enlistAll, List.foldl_cons, ← enlistAll, ih, lists_enlist_iff, or_assoc]
    simp only [List.mem_cons, exists_eq_or_imp]

/-! ## Parts of a batch -/

theorem enlistAll_append (now : UInt64) (r : Registry Listing) (first second : List Coin) :
    enlistAll now r (first ++ second) = enlistAll now (enlistAll now r first) second := List.foldl_append

theorem admitted_append (now : UInt64) (r : Registry Listing) (first second : List Coin) :
    admitted now r (first ++ second) = admitted now r first ++ admitted now (enlistAll now r first) second := by
  induction first generalizing r with
  | nil => rfl
  | cons coin first ih =>
    rw [List.cons_append, admitted, admitted, ih, List.append_assoc, enlistAll, enlistAll, List.foldl_cons]

/-- One more coin is new when neither what is listed nor the rest of the batch has its identifier. -/
theorem fresh_concat (r : Registry Listing) (coins : List Coin) (coin : Coin) :
    fresh r (coins ++ [coin]) = fresh r coins ++
      if ¬Lists r coin.owner coin.keyId ∧
        ∀ other ∈ coins, ¬(other.owner = coin.owner ∧ other.keyId = coin.keyId) then [coin] else [] := by
  unfold fresh
  rw [List.zipIdx_append, List.filter_append, List.map_append]
  congr 1
  · -- what comes earlier than a coin of the batch does not change
    congr 1
    apply List.filter_congr
    rintro ⟨other, index⟩ hmem
    have hlt : index < coins.length := by
      obtain ⟨hlt, -⟩ := List.getElem?_eq_some_iff.1 (List.mk_mem_zipIdx_iff_getElem?.1 hmem)
      exact hlt
    simp only [List.take_append_of_le_length (Nat.le_of_lt hlt)]
  · simp only [List.zipIdx_cons, List.zipIdx_nil, List.filter_cons, List.filter_nil, Nat.zero_add,
      List.take_left, decide_eq_true_eq]
    split <;> rfl

/-- **The coins that get listed** one after the other are the new ones of the batch. -/
theorem admitted_eq_fresh (now : UInt64) (r : Registry Listing) (coins : List Coin) :
    admitted now r coins = fresh r coins := by
  induction coins using List.reverseRecOn with
  | nil => rfl
  | append_singleton coins coin ih =>
    have hnew : ¬Lists (enlistAll now r coins) coin.owner coin.keyId ↔
        ¬Lists r coin.owner coin.keyId ∧
          ∀ other ∈ coins, ¬(other.owner = coin.owner ∧ other.keyId = coin.keyId) := by
      rw [lists_enlistAll_iff, not_or, not_exists]
      simp only [not_and]
    rw [admitted_append, fresh_concat, ih, admitted, admitted, List.append_nil, ← ite_not]
    simp only [hnew]

/-! ## Coins that are listed already -/

/-- Coins whose identifiers are all listed change nothing, and none of them is new. -/
theorem enlistAll_of_lists (now : UInt64) (h : ∀ coin ∈ coins, Lists r coin.owner coin.keyId) :
    enlistAll now r coins = r ∧ fresh r coins = [] := by
  constructor
  · induction coins with
    | nil => rfl
    | cons coin coins ih =>
      obtain ⟨hcoin, hcoins⟩ := List.forall_mem_cons.1 h
      rw [enlistAll, List.foldl_cons, enlist_of_lists hcoin]
      exact ih hcoins
  · rw [fresh, List.map_eq_nil_iff, List.filter_eq_nil_iff]
    rintro ⟨coin, index⟩ hmem hnew
    have hlisted := h coin (List.mem_of_getElem? (List.mk_mem_zipIdx_iff_getElem?.1 hmem))
    exact (of_decide_eq_true hnew).1 hlisted

/-! ## Batches that are published -/

/-- What becomes of a batch of valid coins. -/
structure Publishes (coins : List Coin) (b : Broker) : Prop where
  /-- The new coins of a user are listed behind those listed before, in the order of the batch, at the present time and
  as coins that nobody fetched. -/
  listings : ∀ user, (b.publish coins).2.listings.of user = b.listings.of user ++
    ((fresh b.listings coins).filter (·.owner = user)).map fun coin =>
      { coin, publishedAt := b.clock.now, dispensed := false }
  /-- Nothing but the listings changes. -/
  others : (b.publish coins).2 = { b with listings := (b.publish coins).2.listings }
  /-- The new coins are counted as accepted and the others as duplicates. -/
  counts : ∃ ack, (b.publish coins).1 = .ok ack ∧ (coins.length < UInt32.size →
    ack.accepted.toNat = (fresh b.listings coins).length ∧
      ack.accepted.toNat + ack.duplicates.toNat = coins.length)
  /-- Wherever the batch is split, its parts leave the same broker, and their counts add up. -/
  parts : ∀ first second, coins = first ++ second →
    (b.publish coins).2 = ((b.publish first).2.publish second).2 ∧
      ∃ ack former latter, (b.publish coins).1 = .ok ack ∧ (b.publish first).1 = .ok former ∧
        ((b.publish first).2.publish second).1 = .ok latter ∧ (coins.length < UInt32.size →
          ack.accepted.toNat = former.accepted.toNat + latter.accepted.toNat ∧
            ack.duplicates.toNat = former.duplicates.toNat + latter.duplicates.toNat)
  /-- The batch leaves what its coins leave one at a time. -/
  singly : (b.publish coins).2 = coins.foldl (fun b coin => (b.publish [coin]).2) b
  /-- The same batch once more has duplicates only and changes nothing. -/
  again : (b.publish coins).2.publish coins =
    (.ok { accepted := 0, duplicates := UInt32.ofNat coins.length }, (b.publish coins).2)

theorem length_fresh_le (r : Registry Listing) (coins : List Coin) : (fresh r coins).length ≤ coins.length := by
  rw [← admitted_eq_fresh 0]
  exact (admitted_sublist 0 r coins).length_le

/-- A batch in two parts. -/
theorem publish_append {first second : List Coin} (hfirst : ∀ coin ∈ first, coin.check = .ok ())
    (hsecond : ∀ coin ∈ second, coin.check = .ok ()) (b : Broker) :
    (b.publish (first ++ second)).2 = ((b.publish first).2.publish second).2 := by
  have hboth := List.forall_mem_append.2 ⟨hfirst, hsecond⟩
  rw [publish_of_valid (invalid?_eq_none_iff.2 hboth), publish_of_valid (invalid?_eq_none_iff.2 hfirst),
    publish_of_valid (invalid?_eq_none_iff.2 hsecond), enlistAll_append]

/-- A batch coin by coin. -/
theorem publish_eq_foldl (hvalid : ∀ coin ∈ coins, coin.check = .ok ()) (b : Broker) :
    (b.publish coins).2 = coins.foldl (fun b coin => (b.publish [coin]).2) b := by
  induction coins generalizing b with
  | nil => exact congrArg Prod.snd (publish_of_valid (invalid?_eq_none_iff.2 hvalid) b)
  | cons coin coins ih =>
    obtain ⟨hcoin, hcoins⟩ := List.forall_mem_cons.1 hvalid
    have hfirst : ∀ other ∈ [coin], other.check = .ok () := by simpa using hcoin
    rw [List.foldl_cons, ← ih hcoins]
    exact publish_append hfirst hcoins b

/-- **A batch of valid coins** is listed but for the duplicates. -/
theorem publishes_of_valid (h : invalid? coins = none) (b : Broker) : Publishes coins b := by
  have hpublish := publish_of_valid h b
  have hlength := length_fresh_le b.listings coins
  have hvalid := invalid?_eq_none_iff.1 h
  rw [admitted_eq_fresh] at hpublish
  constructor
  · intro user
    rw [listings_publish, accepted, h, admitted_eq_fresh]
    rfl
  · rw [hpublish]
  · refine ⟨_, congrArg Prod.fst hpublish, ?_⟩
    intro hlt
    simp only
    rw [UInt32.toNat_ofNat_of_lt' (by omega), UInt32.toNat_ofNat_of_lt' (by omega)]
    omega
  · -- what the first part has seen is forgotten before the second comes, but it is listed by then
    rintro first second rfl
    obtain ⟨hvalidfirst, hvalidsecond⟩ := List.forall_mem_append.1 hvalid
    have hfirst := publish_of_valid (invalid?_eq_none_iff.2 hvalidfirst) b
    have hsecond := publish_of_valid (invalid?_eq_none_iff.2 hvalidsecond) (b.publish first).2
    have hsplit := admitted_append b.clock.now b.listings first second
    have hlefirst := length_fresh_le b.listings first
    have hlesecond := length_fresh_le (enlistAll b.clock.now b.listings first) second
    refine ⟨publish_append hvalidfirst hvalidsecond b, ?_⟩
    rw [hfirst] at hsecond
    simp only [admitted_eq_fresh] at hfirst hsecond hsplit
    rw [hpublish, hfirst, hsecond]
    refine ⟨_, _, _, rfl, rfl, rfl, ?_⟩
    intro hlt
    simp only [hsplit, List.length_append] at hlt ⊢
    rw [UInt32.toNat_ofNat_of_lt' (by omega), UInt32.toNat_ofNat_of_lt' (by omega),
      UInt32.toNat_ofNat_of_lt' (by omega), UInt32.toNat_ofNat_of_lt' (by omega),
      UInt32.toNat_ofNat_of_lt' (by omega), UInt32.toNat_ofNat_of_lt' (by omega)]
    omega
  · exact publish_eq_foldl hvalid b
  · have hlisted : ∀ coin ∈ coins, Lists (enlistAll b.clock.now b.listings coins) coin.owner coin.keyId :=
      fun coin hc => lists_enlistAll_iff.2 (.inr ⟨coin, hc, rfl, rfl⟩)
    obtain ⟨hsame, hnone⟩ := enlistAll_of_lists b.clock.now hlisted
    rw [hpublish, publish_of_valid h, admitted_eq_fresh]
    simp only [hsame, hnone]
    rfl

/-- **A batch is refused or listed.** If a coin has a fault, the first that has one is told, by its place and its first
fault, and nothing changes. Otherwise all new coins are listed, in order; it does not matter whether a batch comes as
one or in parts, and it can come again without any effect. -/
theorem publish_batch (coins : List Coin) (b : Broker) :
    (∃ index coin fault, FirstFault coins index coin fault ∧
        b.publish coins = (.error (.invalidCoin index (.invalidRecord fault)), b)) ∨
      (∀ coin ∈ coins, coin.faults = []) ∧ Publishes coins b := by
  by_cases hvalid : ∀ coin ∈ coins, coin.faults = []
  · refine .inr ⟨hvalid, publishes_of_valid (invalid?_eq_none_iff.2 ?_) b⟩
    intro coin hc
    exact Coin.check_eq_ok_iff.2 (hvalid coin hc)
  · obtain ⟨index, coin, fault, hfirst⟩ := exists_firstFault hvalid
    exact .inl ⟨index, coin, fault, hfirst, publish_of_invalid hfirst.invalid? b⟩

/-- Two users may list coins under one identifier. Of one user, the first coin under it is listed, whatever the
tiers. -/
example :
    let coin (owner : String) (tier : Tier) : Coin := { owner, keyId := ⟨7⟩, tier, publicKey := "ab", signature := "s" }
    fresh .empty [coin "ada" .gold, coin "bob" .gold, coin "ada" .bronze] = [coin "ada" .gold, coin "bob" .gold] := by
  decide

end Broker

end CoinRelay
