import CoinRelay.Broker.Basic
import CoinRelay.Proofs.Broker.Registry

/-!
# Publishing

A batch is taken in with two checks for duplicates, against the listings of the owner and against what the batch has
brought so far, and an owner is entered before either is made. A valid batch still does what its coins do one at a time
(`enlistAll`).

- `Intake.Settled`: what a batch has brought is listed, so the second check never decides (`Intake.take_eq`);
- `Intake.foldl_take`: a batch that is taken in lists the coins that are admitted one at a time, and counts them;
- `publish_of_valid`, `listings_publish`: what publishing answers, and what it puts behind the listings of a user.
-/

namespace CoinRelay.Broker

open Wire

variable {b : Broker} {user : String} {now : UInt64} {r : Registry Listing} {coins : List Coin}

/-! ## One coin at a time -/

/-- A user lists a coin under an identifier. -/
def Lists (r : Registry Listing) (user : String) (keyId : KeyId) : Prop := ∃ l ∈ r.of user, l.coin.keyId = keyId

instance (r : Registry Listing) (user : String) (keyId : KeyId) : Decidable (Lists r user keyId) :=
  inferInstanceAs (Decidable (∃ l ∈ r.of user, l.coin.keyId = keyId))

/-- The listing of a coin at the time of its publication. -/
def listing (now : UInt64) (coin : Coin) : Listing := { coin, publishedAt := now }

/-- Lists a coin, unless its owner lists one under the identifier already. -/
def enlist (now : UInt64) (r : Registry Listing) (coin : Coin) : Registry Listing :=
  if Lists r coin.owner coin.keyId then r else r.push coin.owner (listing now coin)

/-- Lists coins one after the other. -/
def enlistAll (now : UInt64) (r : Registry Listing) (coins : List Coin) : Registry Listing := coins.foldl (enlist now) r

/-- The coins that get listed one after the other. -/
def admitted (now : UInt64) (r : Registry Listing) : List Coin → List Coin
  | [] => []
  | coin :: coins =>
    (if Lists r coin.owner coin.keyId then [] else [coin]) ++ admitted now (enlist now r coin) coins

theorem enlist_of_lists {coin : Coin} (h : Lists r coin.owner coin.keyId) : enlist now r coin = r := if_pos h

theorem of_enlist (now : UInt64) (r : Registry Listing) (coin : Coin) (user : String) :
    (enlist now r coin).of user =
      r.of user ++ (if ¬Lists r coin.owner coin.keyId ∧ coin.owner = user then [listing now coin] else []) := by
  unfold enlist
  split
  · next h => simp [h]
  · next h =>
    rw [Registry.of_push]
    by_cases hu : user = coin.owner
    · simp [hu, h]
    · simp [hu, Ne.symm hu]

/-- After a coin was to be listed, its identifier is. -/
theorem lists_enlist_iff {coin : Coin} {keyId : KeyId} :
    Lists (enlist now r coin) user keyId ↔ Lists r user keyId ∨ (coin.owner = user ∧ coin.keyId = keyId) := by
  by_cases hlisted : Lists r coin.owner coin.keyId
  · rw [enlist_of_lists hlisted]
    refine ⟨Or.inl, ?_⟩
    rintro (h | ⟨rfl, rfl⟩)
    · exact h
    · exact hlisted
  · rw [Lists, Lists, of_enlist]
    simp only [hlisted, not_false_eq_true, true_and]
    by_cases howner : coin.owner = user
    · simp [howner, listing, or_and_right, exists_or]
    · simp [howner]

/-- What every coin of a batch keeps is kept by the batch. -/
theorem enlistAll_induction {P : Registry Listing → Prop}
    (hlist : ∀ coin ∈ coins, ∀ r, P r → P (enlist now r coin)) (h : P r) : P (enlistAll now r coins) :=
  List.foldlRecOn coins _ h fun r hr coin hc => hlist coin hc r hr

theorem admitted_sublist (now : UInt64) (r : Registry Listing) (coins : List Coin) :
    (admitted now r coins).Sublist coins := by
  induction coins generalizing r with
  | nil => exact .slnil
  | cons coin coins ih =>
    rw [admitted]
    split
    · exact (ih _).cons coin
    · exact (ih _).cons_cons coin

/-- Of the coins admitted, those a user owns are listed behind the others, in order. -/
theorem of_enlistAll (now : UInt64) (r : Registry Listing) (coins : List Coin) (user : String) :
    (enlistAll now r coins).of user =
      r.of user ++ ((admitted now r coins).filter (·.owner = user)).map (listing now) := by
  induction coins generalizing r with
  | nil => exact (List.append_nil _).symm
  | cons coin coins ih =>
    rw [enlistAll, List.foldl_cons, ← enlistAll, ih, of_enlist, admitted, List.append_assoc, List.filter_append,
      List.map_append]
    congr 2
    by_cases hlisted : Lists r coin.owner coin.keyId
    · simp [hlisted]
    · simp only [hlisted, not_false_eq_true, true_and, if_false]
      by_cases hown : coin.owner = user <;> simp [hown]

/-- Coins under new identifiers, all of them different, are all admitted. -/
theorem admitted_of_new (now : UInt64) (hnd : (coins.map (·.keyId)).Nodup)
    (hnew : ∀ coin ∈ coins, ¬Lists r coin.owner coin.keyId) : admitted now r coins = coins := by
  induction coins generalizing r with
  | nil => rfl
  | cons coin coins ih =>
    obtain ⟨hother, hnd⟩ := List.nodup_cons.1 hnd
    obtain ⟨hfirst, hrest⟩ := List.forall_mem_cons.1 hnew
    have hnext : ∀ other ∈ coins, ¬Lists (enlist now r coin) other.owner other.keyId := by
      intro other ho hlisted
      rcases lists_enlist_iff.1 hlisted with hlisted | ⟨-, hkeyId⟩
      · exact hrest other ho hlisted
      · exact hother (List.mem_map.2 ⟨other, ho, hkeyId.symm⟩)
    rw [admitted, if_neg hfirst, ih hnd hnext]
    rfl

/-! ## Batches that are taken in -/

namespace Intake

variable {s : Intake}

/-- What the batch has brought is listed. -/
def Settled (s : Intake) : Prop := ∀ key ∈ s.seen, Lists s.listings key.1 key.2

/-- The two checks together find out whether the owner lists the identifier. -/
theorem check_iff (h : s.Settled) (coin : Coin) :
    ((s.listings.enter coin.owner).of coin.owner).any (·.coin.keyId = coin.keyId) ||
        s.seen.contains (coin.owner, coin.keyId) ↔ Lists s.listings coin.owner coin.keyId := by
  rw [Bool.or_eq_true, List.any_eq_true, List.contains_iff_mem, Registry.of_enter]
  simp only [decide_eq_true_eq]
  constructor
  · rintro (hlisted | hseen)
    · exact hlisted
    · exact h _ hseen
  · exact .inl

/-- **A coin** that is taken in is enlisted. An owner who was entered in vain had listings before, and one who had none
gets one. -/
theorem take_eq (h : s.Settled) (coin : Coin) :
    s.take now coin =
      if Lists s.listings coin.owner coin.keyId then { s with duplicates := s.duplicates + 1 }
      else
        { listings := enlist now s.listings coin
          seen := (coin.owner, coin.keyId) :: s.seen
          accepted := s.accepted + 1
          duplicates := s.duplicates } := by
  unfold take
  by_cases hlisted : Lists s.listings coin.owner coin.keyId
  · have hkept : s.listings.enter coin.owner = s.listings := by
      apply Registry.enter_of_ne
      obtain ⟨l, hl, -⟩ := hlisted
      exact List.ne_nil_of_mem hl
    rw [if_pos hlisted]
    simp only
    rw [if_pos ((check_iff h coin).2 hlisted), hkept]
  · rw [if_neg hlisted, enlist, if_neg hlisted]
    simp only
    rw [if_neg (mt (check_iff h coin).1 hlisted), Registry.push_enter]
    rfl

theorem listings_take (h : s.Settled) (coin : Coin) : (s.take now coin).listings = enlist now s.listings coin := by
  rw [take_eq h]
  split
  · next hlisted => exact (enlist_of_lists hlisted).symm
  · rfl

theorem Settled.take (h : s.Settled) (now : UInt64) (coin : Coin) : (s.take now coin).Settled := by
  intro key hkey
  rw [listings_take h, lists_enlist_iff]
  rw [take_eq h] at hkey
  split at hkey
  · exact .inl (h key hkey)
  · rcases List.mem_cons.1 hkey with rfl | hkey
    · exact .inr ⟨rfl, rfl⟩
    · exact .inl (h key hkey)

/-- **A batch** that is taken in lists the coins that are admitted one at a time. These are counted as accepted and the
others as duplicates. -/
theorem foldl_take (h : s.Settled) (now : UInt64) (coins : List Coin) :
    let s' := coins.foldl (take now) s
    s'.listings = enlistAll now s.listings coins ∧
      s'.accepted = s.accepted + (admitted now s.listings coins).length ∧
      s'.duplicates + (admitted now s.listings coins).length = s.duplicates + coins.length := by
  induction coins generalizing s with
  | nil => exact ⟨rfl, rfl, rfl⟩
  | cons coin coins ih =>
    obtain ⟨hlistings, haccepted, hduplicates⟩ := ih (h.take now coin)
    simp only [List.foldl_cons, enlistAll, admitted, List.length_append, List.length_cons]
    rw [hlistings, haccepted]
    rw [listings_take h] at hduplicates ⊢
    refine ⟨rfl, ?_⟩
    rw [take_eq h] at hduplicates ⊢
    split at hduplicates
    · next hlisted =>
      simp only [if_pos hlisted, List.length_nil] at hduplicates ⊢
      omega
    · next hlisted =>
      simp only [if_neg hlisted, List.length_singleton] at hduplicates ⊢
      omega

end Intake

/-! ## What is published -/

/-- A batch without a first coin that is not valid has none. -/
theorem check_of_invalid? {coins : List Coin} (h : invalid? coins = none) {coin : Coin} (hc : coin ∈ coins) :
    coin.check = .ok () := by
  rw [invalid?, List.findSome?_eq_none_iff] at h
  obtain ⟨i, hi, rfl⟩ := List.mem_iff_getElem.1 hc
  have := h (coins[i], i) (List.mk_mem_zipIdx_iff_getElem?.2 (List.getElem?_eq_getElem hi))
  simp only at this
  split at this
  · assumption
  · cases this

theorem invalid?_eq_none_iff {coins : List Coin} : invalid? coins = none ↔ ∀ coin ∈ coins, coin.check = .ok () := by
  refine ⟨fun h coin hc => check_of_invalid? h hc, fun h => ?_⟩
  refine List.findSome?_eq_none_iff.2 fun entry hentry => ?_
  obtain ⟨coin, index⟩ := entry
  simp only [h coin (List.mem_of_getElem? (List.mk_mem_zipIdx_iff_getElem?.1 hentry))]

/-- A batch that is refused changes nothing. -/
theorem publish_of_invalid {coins : List Coin} {e : BrokerError} (h : invalid? coins = some e) (b : Broker) :
    b.publish coins = (.error e, b) := by
  rw [publish, h]

/-- **Valid coins** are listed one at a time. -/
theorem publish_of_valid (h : invalid? coins = none) (b : Broker) :
    b.publish coins =
      (.ok { accepted := UInt32.ofNat (admitted b.clock.now b.listings coins).length
             duplicates := UInt32.ofNat (coins.length - (admitted b.clock.now b.listings coins).length) },
        { b with listings := enlistAll b.clock.now b.listings coins }) := by
  have hstart : Intake.Settled { listings := b.listings } := by
    intro key hkey
    cases hkey
  obtain ⟨hlistings, haccepted, hduplicates⟩ := Intake.foldl_take hstart b.clock.now coins
  simp only [Nat.zero_add] at hlistings haccepted hduplicates
  rw [publish, h]
  simp only [hlistings, haccepted, ← hduplicates, Nat.add_sub_cancel]

/-- **A valid batch** under new identifiers, all of them different, is listed as a whole. -/
theorem publish_of_new (hvalid : ∀ coin ∈ coins, coin.check = .ok ()) (hnd : (coins.map (·.keyId)).Nodup)
    (hnew : ∀ coin ∈ coins, ∀ l ∈ b.listings.of coin.owner, l.coin.keyId ≠ coin.keyId) :
    (b.publish coins).1 = .ok { accepted := UInt32.ofNat coins.length, duplicates := 0 } := by
  have hadmitted : admitted b.clock.now b.listings coins = coins := by
    apply admitted_of_new b.clock.now hnd
    rintro coin hc ⟨l, hl, hkeyId⟩
    exact hnew coin hc l hl hkeyId
  rw [publish_of_valid (invalid?_eq_none_iff.2 hvalid), hadmitted, Nat.sub_self]
  rfl

/-- The coins of a batch that a broker accepts: none of a batch that it refuses, else those that get listed. -/
def accepted (coins : List Coin) (b : Broker) : List Coin :=
  match invalid? coins with
  | some _ => []
  | none => admitted b.clock.now b.listings coins

/-- What is accepted is part of the batch, and valid. -/
theorem accepted_sublist (coins : List Coin) (b : Broker) :
    (b.accepted coins).Sublist coins ∧ ∀ coin ∈ b.accepted coins, coin.check = .ok () := by
  unfold accepted
  split
  · exact ⟨List.nil_sublist _, fun _ hc => by cases hc⟩
  · next hvalid =>
    have hsub := admitted_sublist b.clock.now b.listings coins
    exact ⟨hsub, fun coin hc => check_of_invalid? hvalid (hsub.subset hc)⟩

/-- **Publishing** lists the accepted coins under their owners, behind those listed before. -/
theorem listings_publish (coins : List Coin) (b : Broker) (user : String) :
    (b.publish coins).2.listings.of user =
      b.listings.of user ++ ((b.accepted coins).filter (·.owner = user)).map (listing b.clock.now) := by
  unfold accepted
  cases h : invalid? coins with
  | some e =>
    rw [publish_of_invalid h]
    exact (List.append_nil _).symm
  | none =>
    rw [publish_of_valid h]
    exact of_enlistAll b.clock.now b.listings coins user

/-- A batch that is refused has no accepted coins; otherwise it is acknowledged with their number. -/
theorem accepted_publish (coins : List Coin) (b : Broker) :
    (∃ e, (b.publish coins).1 = .error e ∧ b.accepted coins = []) ∨
      ∃ ack, (b.publish coins).1 = .ok ack ∧ ack.accepted = UInt32.ofNat (b.accepted coins).length := by
  unfold accepted
  cases h : invalid? coins with
  | some e => exact .inl ⟨e, congrArg Prod.fst (publish_of_invalid h b), rfl⟩
  | none => exact .inr ⟨_, congrArg Prod.fst (publish_of_valid h b), rfl⟩

/-- Publishing refuses a batch, or lists some of its coins under their owners at the present time. -/
theorem of_publish (coins : List Coin) (b : Broker) (user : String) :
    ∃ new : List Coin, new.Sublist (coins.filter (·.owner = user)) ∧ (∀ coin ∈ new, coin.check = .ok ()) ∧
      (b.publish coins).2.listings.of user = b.listings.of user ++ new.map (listing b.clock.now) := by
  obtain ⟨hsub, hvalid⟩ := accepted_sublist coins b
  exact ⟨_, hsub.filter _, fun coin hc => hvalid coin (List.mem_filter.1 hc).1, listings_publish coins b user⟩

theorem mailboxes_publish (coins : List Coin) (b : Broker) : (b.publish coins).2.mailboxes = b.mailboxes := by
  unfold publish
  split <;> rfl

end CoinRelay.Broker
