import CoinRelay.Proofs.Cbor.Length

/-!
# Why items are refused

Heads, strings and numbers are refused for one reason only: they are not such an item (`Reader.Malformed`). Loops give
the faults of the items they read (`foldItems_fault`), and so does what reads past an item (`skipper_malformed`).
-/

namespace CoinRelay.Cbor

variable {α β σ : Type}

/-- A reader whose faults all have a property. -/
def Reader.Faults (P : Fault → Prop) (read : Reader α) : Prop := ∀ s e, read s = .error e → P e

/-- A reader that refuses only what is no item of its kind. -/
abbrev Reader.Malformed (read : Reader α) : Prop := read.Faults (· = .malformed)

theorem Reader.Faults.mono {P Q : Fault → Prop} {read : Reader α} (h : read.Faults P) (hPQ : ∀ e, P e → Q e) :
    read.Faults Q := fun s e he => hPQ e (h s e he)

/-! ## Combinators and loops -/

section Combinators

variable {P : Fault → Prop}

theorem map_faults {read : Reader α} (f : α → β) (hr : read.Faults P) : (read.map f).Faults P := by
  intro s e h
  unfold Reader.map at h
  split at h
  · next hs =>
    cases h
    exact hr s e hs
  · cases h

theorem andThen_faults {first : Reader α} {second : α → Reader β} (h₁ : first.Faults P)
    (h₂ : ∀ a, (second a).Faults P) : (first.andThen second).Faults P := by
  intro s e h
  unfold Reader.andThen at h
  split at h
  · next hs =>
    cases h
    exact h₁ s e hs
  · split at h
    · next hs =>
      cases h
      exact h₂ _ _ e hs
    · cases h

theorem foldCount_fault {item : σ → Reader σ} (hi : ∀ a, (item a).Faults P) {n : Nat} {state : σ} {s : Octets}
    {r : Tail s} {e : Fault} (h : foldCount item n state r = .error e) : P e := by
  induction n generalizing state r with
  | zero => cases h
  | succ n ih =>
    unfold foldCount at h
    split at h
    · next hs =>
      cases h
      exact hi state _ e hs
    · exact ih h

theorem foldUntil_fault {mark : Reader Bool} {item : σ → Reader σ} (hm : mark.Faults P)
    (hi : ∀ a, (item a).Faults P) {state : σ} {s : Octets} {r : Tail s} {e : Fault}
    (h : foldUntil mark item state r = .error e) : P e := by
  fun_induction foldUntil mark item state r with
  | case1 state r e' hmark =>
    cases h
    exact hm _ e hmark
  | case2 => cases h
  | case3 state r _ _ e' hitem =>
    cases h
    exact hi state _ e hitem
  | case4 state r _ _ _ _ _ ih => exact ih h

end Combinators

/-! ## Heads -/

theorem Head.argument_malformed {info : Nat} {s : Octets} {e : Fault} (h : Head.argument info s = .error e) :
    e = .malformed := by
  unfold Head.argument at h
  repeat' split at h
  all_goals
    cases h
    try rfl

theorem Head.read_malformed : Head.read.Malformed := by
  intro s e h
  unfold Head.read at h
  split at h
  · cases h
    rfl
  simp only at h
  split at h
  · repeat' split at h
    all_goals
      cases h
      try rfl
  split at h
  · next ha =>
    cases h
    exact Head.argument_malformed ha
  · repeat' split at h
    all_goals
      cases h
      try rfl

theorem Head.pastFrom_malformed {skipped : Nat → Bool} {s : Octets} {r : Tail s} {e : Fault}
    (h : Head.pastFrom skipped r = .error e) : e = .malformed := by
  fun_induction Head.pastFrom skipped r with
  | case1 r e' hread =>
    cases h
    exact Head.read_malformed _ e hread
  | case2 r n q _ _ ih => exact ih h
  | case3 | case4 => cases h

theorem Head.past_malformed (skipped : Nat → Bool) : (Head.past skipped).Malformed :=
  fun _ _ h => pastFrom_malformed h

/-- A loop over the items that a head announced gives the faults of the items. -/
theorem foldItems_fault {P : Fault → Prop} {item : σ → Reader σ} (hm : P .malformed) (hi : ∀ a, (item a).Faults P)
    {length : Option Nat} {state : σ} {s : Octets} {r : Rest s} {e : Fault}
    (h : foldItems item length state r = .error e) : P e := by
  unfold foldItems at h
  simp only at h
  split at h
  · next hs =>
    cases h
    split at hs
    · exact foldCount_fault hi hs
    · refine foldUntil_fault (map_faults _ ?_) hi hs
      exact Head.read_malformed.mono (by rintro _ rfl; exact hm)
  · cases h

/-! ## Strings -/

theorem take_malformed {n : Nat} {s : Octets} {r : Rest s} {e : Fault} (h : take n r = .error e) : e = .malformed := by
  unfold take at h
  split at h <;> cases h
  rfl

theorem chunksFrom_malformed {kind : StringKind} {depth : Nat} {read : List Octets} {s : Octets} {r : Rest s}
    {e : Fault} (h : chunksFrom kind depth read r = .error e) : e = .malformed := by
  fun_induction chunksFrom kind depth read r with
  | case1 _ _ r _ hread =>
    cases h
    exact Head.read_malformed _ e hread
  | case2 => cases h
  | case3 _ _ _ _ _ ih | case5 _ _ _ _ _ _ _ _ ih | case7 _ _ _ _ _ _ _ _ _ _ _ _ ih => exact ih h
  | case4 =>
    cases h
    rfl
  | case6 _ _ _ _ _ _ _ _ _ _ htake =>
    cases h
    exact take_malformed htake

theorem chunks_malformed {kind : StringKind} {length : Option Nat} {s : Octets} {r : Rest s} {e : Fault}
    (h : chunks kind length r = .error e) : e = .malformed := by
  unfold chunks at h
  split at h
  · exact chunksFrom_malformed h
  · split at h
    · next hs =>
      cases h
      exact take_malformed hs
    · cases h

theorem textAfter_malformed {length : Option Nat} {s : Octets} {r : Rest s} {e : Fault}
    (h : textAfter length r = .error e) : e = .malformed := by
  unfold textAfter at h
  split at h
  · next hs =>
    cases h
    exact chunks_malformed hs
  · split at h <;> cases h
    rfl

theorem readText_malformed : readText.Malformed := by
  intro s e h
  unfold readText at h
  split at h
  · next hs =>
    cases h
    exact Head.past_malformed _ s e hs
  · exact textAfter_malformed h
  · cases h
    rfl

theorem readKey_malformed : readKey.Malformed := by
  intro s e h
  unfold readKey at h
  split at h
  · next hs =>
    cases h
    exact Head.past_malformed _ s e hs
  · split at h
    · split at h
      · next hs =>
        cases h
        exact take_malformed hs
      · split at h <;> cases h
        rfl
    · cases h
      rfl
  · split at h
    · exact take_malformed h
    · cases h
      rfl
  · cases h
    rfl

/-! ## Numbers -/

theorem readBigOctets_malformed : readBigOctets.Malformed := by
  intro s e h
  unfold readBigOctets at h
  split at h
  · next hs =>
    cases h
    exact Head.read_malformed s e hs
  · split at h
    · next hs =>
      cases h
      exact chunks_malformed hs
    · simp only at h
      split at h <;> cases h
      rfl
  · cases h
    rfl

theorem readNatural_malformed : readNatural.Malformed := by
  intro s e h
  unfold readNatural at h
  split at h
  · next hs =>
    cases h
    exact Head.past_malformed _ s e hs
  · cases h
  · split at h
    · split at h
      · next hs =>
        cases h
        exact readBigOctets_malformed _ e hs
      · cases h
    · cases h
      rfl
  · cases h
    rfl

/-! ## Items read past -/

theorem skipBig_malformed (tag : Nat) : (skipBig tag).Malformed := by
  intro s e h
  unfold skipBig at h
  split at h
  · next hs =>
    cases h
    exact readBigOctets_malformed s e hs
  · split at h <;> cases h
    rfl

theorem skipWith_malformed {inner : Option (Reader Unit)} (hi : ∀ item ∈ inner, item.Malformed) :
    (skipWith inner).Malformed := by
  intro s e h
  unfold skipWith at h
  split at h
  · next hs =>
    cases h
    exact Head.read_malformed s e hs
  next head r _ =>
  simp only at h
  split at h
  · cases h
  · cases h
  · cases h
  · split at h <;> cases h
    rfl
  · split at h
    · next hs =>
      cases h
      exact chunks_malformed hs
    · cases h
  · split at h
    · next hs =>
      cases h
      exact textAfter_malformed hs
    · cases h
  · exact foldItems_fault (P := (· = .malformed)) rfl (fun _ => hi _ rfl) h
  · exact foldItems_fault (P := (· = .malformed)) rfl (fun _ => andThen_faults (hi _ rfl) fun _ => hi _ rfl) h
  · split at h
    · split at h
      · next hs =>
        cases h
        exact skipBig_malformed _ _ e hs
      · cases h
    · split at h
      · cases h
        rfl
      · split at h
        · next hs =>
          cases h
          exact hi _ rfl _ e hs
        · cases h
  · cases h
    rfl

/-- **What reads past an item refuses only what is none.** -/
theorem skipper_malformed (depth : Nat) : (skipper depth).Malformed := by
  induction depth with
  | zero => exact skipWith_malformed (fun _ h => by cases h)
  | succ depth ih => exact skipWith_malformed (fun _ h => by cases h; exact ih)

end CoinRelay.Cbor
