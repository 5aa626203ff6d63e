import CoinRelay.Proofs.Cbor.Length

/-!
# Items end where they end

A reader that took an item off the front of octets takes the same item when more octets come behind
(`Reader.Delimited`): no reader looks beyond its item. So an item that takes all the octets there are cannot be read
from fewer (`Reader.Delimited.error_of_append`).

- `map_delimited`, `andThen_delimited`, `foldItems_delimited`: readers made of others;
- `readText_delimited`, `readKey_delimited`, `readNatural_delimited`: texts, keys and numbers;
- `skipper_delimited`: items read past. The one that looks ahead is here, where an octet string behind a tag may be a
  big number; what it sees does not change either (`bigOctetsNext_append`).
-/

namespace CoinRelay.Cbor

variable {α β σ : Type}

/-- A reader that stops where its item ends, whatever octets come behind. -/
def Reader.Delimited (read : Reader α) : Prop :=
  ∀ (s rest : Octets) (a : α), outcome (read s) = .ok (a, rest) →
    ∀ more, outcome (read (s ++ more)) = .ok (a, rest ++ more)

theorem Reader.Delimited.append {read : Reader α} (hd : read.Delimited) {s rest : Octets} {a : α}
    (h : outcome (read s) = .ok (a, rest)) (more : Octets) : outcome (read (s ++ more)) = .ok (a, rest ++ more) :=
  hd s rest a h more

theorem exists_rest_of_outcome {p : Octets → Prop} {x : Except Fault (α × { r : Octets // p r })} {a : α} {o : Octets}
    (h : outcome x = .ok (a, o)) : ∃ q : { r : Octets // p r }, x = .ok (a, q) ∧ q.1 = o := by
  obtain ⟨hp, h⟩ := exists_of_outcome h
  exact ⟨_, h, rfl⟩

theorem Reader.Delimited.exists_eq_ok {read : Reader α} (hd : read.Delimited) {o w more : Octets} (ho : w = o ++ more)
    {a : α} {q : Rest o} (h : read o = .ok (a, q)) : ∃ q' : Rest w, read w = .ok (a, q') ∧ q'.1 = q.1 ++ more := by
  subst ho
  exact exists_rest_of_outcome (hd.append (outcome_of_eq_ok h) more)

/-- What takes all the octets there are cannot be read from the first of them. -/
theorem Reader.Delimited.error_of_append {read : Reader α} (hd : read.Delimited) {front rest : Octets} {a : α}
    (h : outcome (read (front ++ rest)) = .ok (a, [])) (hrest : rest ≠ []) : ∃ e, read front = .error e := by
  cases hfront : read front with
  | error e => exact ⟨e, rfl⟩
  | ok y =>
    have happend := hd.append (outcome_of_eq_ok hfront) rest
    rw [h] at happend
    simp only [Except.ok.injEq, Prod.mk.injEq, List.nil_eq, List.append_eq_nil_iff] at happend
    exact absurd happend.2.2 hrest

/-! ## Combinators and loops -/

theorem map_delimited {read : Reader α} (f : α → β) (h : read.Delimited) : (read.map f).Delimited := by
  intro s rest b hb more
  rw [outcome_map] at hb ⊢
  cases ha : outcome (read s) with
  | error e => rw [ha] at hb; cases hb
  | ok y =>
    rw [ha] at hb
    cases hb
    rw [h.append ha more]
    rfl

theorem andThen_delimited {first : Reader α} {second : α → Reader β} (h₁ : first.Delimited)
    (h₂ : ∀ a, (second a).Delimited) : (first.andThen second).Delimited := by
  intro s rest b hb more
  rw [outcome_andThen, bind_eq_ok] at hb
  obtain ⟨y, hy, hb⟩ := hb
  rw [outcome_andThen, h₁.append hy more]
  exact (h₂ y.1).append hb more

theorem foldCount_delimited {item : σ → Reader σ} (hi : ∀ state, (item state).Delimited) (n : Nat) {state state' : σ}
    {s rest : Octets} (h : outcome (foldCount item n state (Tail.whole s)) = .ok (state', rest)) (more : Octets) :
    outcome (foldCount item n state (Tail.whole (s ++ more))) = .ok (state', rest ++ more) := by
  induction n generalizing state s with
  | zero =>
    cases h
    rfl
  | succ n ih =>
    rw [outcome_foldCount_succ, bind_eq_ok] at h
    obtain ⟨y, hy, h⟩ := h
    have hy' : outcome (item state (s ++ more)) = .ok (y.1, y.2 ++ more) := (hi state).append hy more
    rw [outcome_foldCount_cons hy']
    exact ih h

theorem foldUntil_delimited {mark : Reader Bool} {item : σ → Reader σ} (hm : mark.Delimited)
    (hi : ∀ state, (item state).Delimited) {state state' : σ} {s rest : Octets}
    (h : outcome (foldUntil mark item state (Tail.whole s)) = .ok (state', rest)) (more : Octets) :
    outcome (foldUntil mark item state (Tail.whole (s ++ more))) = .ok (state', rest ++ more) := by
  rw [outcome_foldUntil, bind_eq_ok] at h
  obtain ⟨⟨stop, q⟩, hq, h⟩ := h
  have hq' : outcome (mark (Tail.whole (s ++ more)).1) = .ok (stop, q ++ more) := hm.append hq more
  rw [outcome_foldUntil, hq']
  cases stop with
  | true =>
    cases h
    rfl
  | false =>
    simp only [Bool.false_eq_true, if_false, bind_eq_ok] at h
    obtain ⟨z, hz, h⟩ := h
    have hlt : z.2.length < s.length := (exists_of_outcome hz).1
    have hz' : outcome (item state (Tail.whole (s ++ more)).1) = .ok (z.1, z.2 ++ more) := (hi state).append hz more
    simp only [Except.bind, Bool.false_eq_true, if_false, hz']
    exact foldUntil_delimited hm hi h more
termination_by s.length

/-! ## Heads -/

namespace Head

theorem argument_append {info n : Nat} {s rest : Octets} (h : outcome (argument info s) = .ok (n, rest))
    (more : Octets) : outcome (argument info (s ++ more)) = .ok (n, rest ++ more) := by
  obtain ⟨hr, h⟩ := exists_of_outcome h
  unfold argument at h ⊢
  split at h
  · next hi =>
    cases h
    rw [if_pos hi]
    rfl
  next hi =>
  rw [if_neg hi]
  split at h
  · next hi =>
    rw [if_pos hi]
    split at h
    · cases h
    next front q hs =>
      cases h
      obtain ⟨rfl, hl⟩ := Octets.split?_eq_some_iff.1 hs
      have hs' := Octets.split?_append hl (rest ++ more)
      rw [← List.append_assoc] at hs'
      split
      · next hnone => rw [hs'] at hnone; cases hnone
      · next hsome =>
        rw [hs'] at hsome
        cases hsome
        rfl
  · cases h

/-- **Heads end where they end.** -/
theorem read_delimited : read.Delimited := by
  intro s rest head h more
  obtain ⟨hr, h⟩ := exists_of_outcome h
  cases s with
  | nil => cases h
  | cons b s =>
    simp only [List.cons_append, read] at h ⊢
    split at h
    · next hi =>
      rw [if_pos hi]
      split at h
      · next hm =>
        cases h
        rw [if_pos hm]
        rfl
      · next hm =>
        rw [if_neg hm]
        split at h <;> cases h
        rfl
    next hi =>
    rw [if_neg hi]
    split at h
    · cases h
    next n r ha =>
    obtain ⟨hq, ha⟩ := exists_of_outcome (argument_append (outcome_of_eq_ok ha) more)
    simp only [ha]
    split at h
    · next hm =>
      cases h
      rw [if_pos hm]
      rfl
    · next hm =>
      rw [if_neg hm]
      split at h <;> cases h
      rfl

theorem past_append (skipped : Nat → Bool) {s rest : Octets} {head : Head}
    (h : outcome (past skipped s) = .ok (head, rest)) (more : Octets) :
    outcome (past skipped (s ++ more)) = .ok (head, rest ++ more) := by
  rw [outcome_past, bind_eq_ok] at h
  obtain ⟨⟨first, q⟩, hq, h⟩ := h
  rw [outcome_past, read_delimited.append hq more]
  have hlt : q.length < s.length := (exists_of_outcome hq).1
  cases first with
  | tag n =>
    simp only [Except.bind] at h ⊢
    split at h
    · next hn =>
      rw [if_pos hn]
      exact past_append skipped h more
    · next hn =>
      cases h
      rw [if_neg hn]
  | _ =>
    cases h
    rfl
termination_by s.length

theorem past_delimited (skipped : Nat → Bool) : (past skipped).Delimited := fun _ _ _ h more => past_append skipped h more

end Head

theorem Head.isStop_delimited : isStop.Delimited := map_delimited _ read_delimited

/-- **The items that a head announced end where the last of them does.** -/
theorem foldItems_delimited {item : σ → Reader σ} (hi : ∀ state, (item state).Delimited) {length : Option Nat}
    {state state' : σ} {s s' rest more : Octets} {r : Rest s} {r' : Rest s'} (hr : r'.1 = r.1 ++ more)
    (h : outcome (foldItems item length state r) = .ok (state', rest)) :
    outcome (foldItems item length state r') = .ok (state', rest ++ more) := by
  cases length with
  | some n =>
    rw [outcome_foldItems_some] at h ⊢
    rw [hr]
    exact foldCount_delimited hi n h more
  | none =>
    rw [outcome_foldItems_none] at h ⊢
    rw [hr]
    exact foldUntil_delimited Head.isStop_delimited hi h more

/-! ## Strings -/

section Strings

variable {s s' rest more : Octets} {r : Rest s} {r' : Rest s'}

theorem take_append {n : Nat} {front : Octets} (hr : r'.1 = r.1 ++ more)
    (h : outcome (take n r) = .ok (front, rest)) : outcome (take n r') = .ok (front, rest ++ more) := by
  obtain ⟨hfront, hn⟩ := of_outcome_take h
  exact outcome_take (by rw [hr, hfront, List.append_assoc]) hn

theorem chunksFrom_append {kind : StringKind} {depth : Nat} {read cs : List Octets} (hr : r'.1 = r.1 ++ more)
    (h : outcome (chunksFrom kind depth read r) = .ok (cs, rest)) :
    outcome (chunksFrom kind depth read r') = .ok (cs, rest ++ more) := by
  fun_induction chunksFrom kind depth read r generalizing s' with
  | case1 => cases h
  | case2 read r q hread =>
    cases h
    obtain ⟨q', hread', hq'⟩ := Head.read_delimited.exists_eq_ok hr hread
    rw [chunksFrom, hread']
    exact congrArg (fun o => Except.ok (read.reverse, o)) hq'
  | case3 read r q hread depth ih =>
    obtain ⟨q', hread', hq'⟩ := Head.read_delimited.exists_eq_ok hr hread
    rw [chunksFrom, hread']
    have hrest : (r'.trans q').1 = (r.trans q).1 ++ more := hq'
    exact ih hrest h
  | case4 => cases h
  | case5 depth read r head q hstop hread hopen ih =>
    obtain ⟨q', hread', hq'⟩ := Head.read_delimited.exists_eq_ok hr hread
    rw [chunksFrom, hread']
    simp only [hopen]
    exact ih hq' h
  | case6 => cases h
  | case7 depth read r head q hstop hread n hlen chunk p htake ih =>
    obtain ⟨q', hread', hq'⟩ := Head.read_delimited.exists_eq_ok hr hread
    obtain ⟨p', htake', hp'⟩ := exists_rest_of_outcome (take_append hq' (outcome_of_eq_ok htake))
    rw [chunksFrom, hread']
    simp only [hlen, htake']
    exact ih hp' h

theorem chunks_append {kind : StringKind} {length : Option Nat} {cs : List Octets} (hr : r'.1 = r.1 ++ more)
    (h : outcome (chunks kind length r) = .ok (cs, rest)) :
    outcome (chunks kind length r') = .ok (cs, rest ++ more) := by
  cases length with
  | none => exact chunksFrom_append hr h
  | some n =>
    obtain ⟨_, h⟩ := exists_of_outcome h
    unfold chunks at h ⊢
    simp only at h ⊢
    split at h
    · cases h
    next htake =>
      cases h
      obtain ⟨q', htake', hq'⟩ := exists_rest_of_outcome (take_append hr (outcome_of_eq_ok htake))
      rw [htake', ← hq']
      rfl

theorem textAfter_append {length : Option Nat} {t : String} (hr : r'.1 = r.1 ++ more)
    (h : outcome (textAfter length r) = .ok (t, rest)) : outcome (textAfter length r') = .ok (t, rest ++ more) := by
  obtain ⟨_, h⟩ := exists_of_outcome h
  unfold textAfter at h ⊢
  split at h
  · cases h
  next hcs =>
    split at h
    · cases h
    next ht =>
      cases h
      obtain ⟨q', hcs', hq'⟩ := exists_rest_of_outcome (chunks_append hr (outcome_of_eq_ok hcs))
      simp only [hcs', ht, ← hq']
      rfl

end Strings

/-! ## Texts, keys and numbers -/

theorem readText_delimited : readText.Delimited := by
  intro s rest t h more
  obtain ⟨_, h⟩ := exists_of_outcome h
  unfold readText at h ⊢
  split at h
  · cases h
  · next length r hhead =>
    obtain ⟨r', hhead', hr⟩ := (Head.past_delimited _).exists_eq_ok (w := s ++ more) rfl hhead
    simp only [show Head.untagged (s ++ more) = _ from hhead']
    exact textAfter_append hr (outcome_of_eq_ok h)
  · cases h

theorem readKey_delimited : readKey.Delimited := by
  intro s rest key h more
  obtain ⟨_, h⟩ := exists_of_outcome h
  unfold readKey at h ⊢
  split at h
  · cases h
  · next n r hhead =>
    obtain ⟨r', hhead', hr⟩ := (Head.past_delimited _).exists_eq_ok (w := s ++ more) rfl hhead
    simp only [show Head.untagged (s ++ more) = _ from hhead']
    split at h
    · next hn =>
      rw [if_pos hn]
      split at h
      · cases h
      next htake =>
      split at h
      · next hkey =>
        cases h
        obtain ⟨q', htake', hq'⟩ := exists_rest_of_outcome (take_append hr (outcome_of_eq_ok htake))
        simp only [htake', if_pos hkey, ← hq']
        rfl
      · cases h
    · cases h
  · next n r hhead =>
    obtain ⟨r', hhead', hr⟩ := (Head.past_delimited _).exists_eq_ok (w := s ++ more) rfl hhead
    simp only [show Head.untagged (s ++ more) = _ from hhead']
    split at h
    · next hn =>
      rw [if_pos hn]
      exact take_append hr (outcome_of_eq_ok h)
    · cases h
  · cases h

theorem readBigOctets_delimited : readBigOctets.Delimited := by
  intro s rest n h more
  obtain ⟨_, h⟩ := exists_of_outcome h
  unfold readBigOctets at h ⊢
  split at h
  · cases h
  · next length r hhead =>
    obtain ⟨r', hhead', hr⟩ := Head.read_delimited.exists_eq_ok (w := s ++ more) rfl hhead
    simp only [hhead']
    split at h
    · cases h
    next cs q hcs =>
      obtain ⟨q', hcs', hq'⟩ := exists_rest_of_outcome (chunks_append hr (outcome_of_eq_ok hcs))
      simp only [hcs'] at h ⊢
      split at h
      · next hlen =>
        cases h
        rw [if_pos hlen, ← hq']
        rfl
      · cases h
  · cases h

theorem readNatural_delimited : readNatural.Delimited := by
  intro s rest n h more
  obtain ⟨_, h⟩ := exists_of_outcome h
  unfold readNatural at h ⊢
  split at h
  · cases h
  · next r hhead =>
    cases h
    obtain ⟨r', hhead', hr⟩ := (Head.past_delimited _).exists_eq_ok (w := s ++ more) rfl hhead
    simp only [hhead', ← hr]
    rfl
  · next m r hhead =>
    obtain ⟨r', hhead', hr⟩ := (Head.past_delimited _).exists_eq_ok (w := s ++ more) rfl hhead
    simp only [hhead']
    split at h
    · next hm =>
      rw [if_pos hm]
      split at h
      · cases h
      next hbig =>
        cases h
        obtain ⟨q', hbig', hq'⟩ := readBigOctets_delimited.exists_eq_ok hr hbig
        simp only [hbig']
        exact congrArg (fun o => Except.ok (n, o)) hq'
    · cases h
  · cases h

/-! ## Items read past -/

theorem skipBig_delimited (tag : Nat) : (skipBig tag).Delimited := by
  intro s rest u h more
  obtain ⟨_, h⟩ := exists_of_outcome h
  unfold skipBig at h ⊢
  split at h
  · cases h
  next n q hbig =>
    obtain ⟨q', hbig', hq'⟩ := readBigOctets_delimited.exists_eq_ok (w := s ++ more) rfl hbig
    simp only [hbig']
    split at h
    · cases h
    next hn =>
      cases h
      rw [if_neg hn, ← hq']
      rfl

/-- What looks ahead for a big number sees the same when more octets come behind a head. -/
theorem bigOctetsNext_append {o o' more : Octets} (ho : o' = o ++ more) {y : Head × Rest o}
    (h : Head.read o = .ok y) : bigOctetsNext o' = bigOctetsNext o := by
  obtain ⟨q', h', -⟩ := Head.read_delimited.exists_eq_ok ho h
  simp only [bigOctetsNext, h, h']
  obtain ⟨head, q⟩ := y
  split <;> split <;> simp_all

theorem exists_read_of_bigOctetsNext {s : Octets} (h : bigOctetsNext s = true) : ∃ y, Head.read s = .ok y := by
  unfold bigOctetsNext at h
  split at h
  · next hread => exact ⟨_, hread⟩
  · cases h

/-- What reads past an item reads its head. -/
theorem exists_read_of_skipWith {inner : Option (Reader Unit)} {s : Octets} {y : Unit × Rest s}
    (h : skipWith inner s = .ok y) : ∃ y, Head.read s = .ok y := by
  unfold skipWith at h
  split at h
  · cases h
  · next hread => exact ⟨_, hread⟩

theorem skipWith_delimited {inner : Option (Reader Unit)} (hi : ∀ item ∈ inner, item.Delimited)
    (hread : ∀ item ∈ inner, ∀ s y, item s = .ok y → ∃ y, Head.read s = .ok y) : (skipWith inner).Delimited := by
  intro s rest u h more
  obtain ⟨_, h⟩ := exists_of_outcome h
  unfold skipWith at h ⊢
  split at h
  · cases h
  next head r hhead =>
  obtain ⟨r', hhead', hr⟩ := Head.read_delimited.exists_eq_ok (w := s ++ more) rfl hhead
  simp only [hhead'] at h ⊢
  cases head with
  | natural | negative | float =>
    cases h
    exact congrArg (fun o => Except.ok ((), o)) hr
  | simple n =>
    simp only at h ⊢
    split at h
    · next hn =>
      cases h
      rw [if_pos hn]
      exact congrArg (fun o => Except.ok ((), o)) hr
    · cases h
  | octets length =>
    simp only at h ⊢
    split at h
    · cases h
    next hcs =>
      cases h
      obtain ⟨q', hcs', hq'⟩ := exists_rest_of_outcome (chunks_append hr (outcome_of_eq_ok hcs))
      rw [hcs', ← hq']
      rfl
  | text length =>
    simp only at h ⊢
    split at h
    · cases h
    next ht =>
      cases h
      obtain ⟨q', ht', hq'⟩ := exists_rest_of_outcome (textAfter_append hr (outcome_of_eq_ok ht))
      rw [ht', ← hq']
      rfl
  | list length =>
    cases inner with
    | none => cases h
    | some item => exact foldItems_delimited (fun _ => hi item rfl) hr (outcome_of_eq_ok h)
  | map length =>
    cases inner with
    | none => cases h
    | some item =>
      exact foldItems_delimited (fun _ => andThen_delimited (hi item rfl) fun _ => hi item rfl) hr (outcome_of_eq_ok h)
  | tag n =>
    simp only at h ⊢
    split at h
    · next hbig =>
      obtain ⟨y, hy⟩ := exists_read_of_bigOctetsNext (Bool.and_eq_true_iff.1 hbig).2
      rw [bigOctetsNext_append hr hy, if_pos hbig]
      split at h
      · cases h
      next hskip =>
        cases h
        obtain ⟨q', hskip', hq'⟩ := (skipBig_delimited n).exists_eq_ok hr hskip
        rw [hskip']
        exact congrArg (fun o => Except.ok ((), o)) hq'
    · next hbig =>
      cases inner with
      | none => cases h
      | some item =>
        simp only at h ⊢
        split at h
        · cases h
        next hitem =>
          cases h
          obtain ⟨y, hy⟩ := hread item rfl _ _ hitem
          obtain ⟨q', hitem', hq'⟩ := (hi item rfl).exists_eq_ok hr hitem
          rw [bigOctetsNext_append hr hy, if_neg hbig, hitem']
          exact congrArg (fun o => Except.ok ((), o)) hq'
  | stop => cases inner <;> cases h

/-- **What reads past an item stops where the item ends.** -/
theorem skipper_delimited (depth : Nat) : (skipper depth).Delimited := by
  induction depth with
  | zero => exact skipWith_delimited (fun _ h => by cases h) (fun _ h => by cases h)
  | succ depth ih =>
    refine skipWith_delimited (fun _ h => ?_) fun _ h s y hy => ?_
    · cases h
      exact ih
    · cases h
      cases depth <;> exact exists_read_of_skipWith hy

end CoinRelay.Cbor
