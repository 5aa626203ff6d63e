import CoinRelay.Cbor.Skip

/-!
# Readers seen from outside

A reader answers with what is left in a type that knows it to be less than there was. `outcome` forgets that, and each
reader has one equation through it, in which what is left is a plain string of octets.

- combinators: `outcome_map`, `outcome_andThen`;
- loops: `outcome_foldCount_succ`, `outcome_foldUntil`, and `foldItems_invariant`, what every item keeps holds at the end;
- heads past tags: `Head.outcome_past`.
-/

namespace CoinRelay.Cbor

variable {α β σ : Type}

/-- What a reader gave and what it left, without the proof that this is less than there was. -/
def outcome {p : Octets → Prop} (x : Except Fault (α × { r : Octets // p r })) : Except Fault (α × Octets) :=
  x.map fun y => (y.1, y.2.1)

section Forgetting

variable {p : Octets → Prop}

theorem outcome_ok (a : α) (r : { r : Octets // p r }) : outcome (.ok (a, r)) = .ok (a, r.1) := rfl

theorem outcome_error (e : Fault) : outcome (.error e : Except Fault (α × { r : Octets // p r })) = .error e := rfl

/-- What is left has the property that its type says. -/
theorem exists_of_outcome {x : Except Fault (α × { r : Octets // p r })} {a : α} {o : Octets}
    (h : outcome x = .ok (a, o)) : ∃ hp : p o, x = .ok (a, ⟨o, hp⟩) := by
  match x, h with
  | .ok (_, ⟨_, hp⟩), h => cases h; exact ⟨hp, rfl⟩

theorem outcome_of_eq_ok {x : Except Fault (α × { r : Octets // p r })} {a : α} {o : Octets} {hp : p o}
    (h : x = .ok (a, ⟨o, hp⟩)) : outcome x = .ok (a, o) := by
  rw [h, outcome_ok]

theorem eq_error_of_outcome {x : Except Fault (α × { r : Octets // p r })} {e : Fault} (h : outcome x = .error e) :
    x = .error e := by
  match x, h with
  | .error _, h => cases h; rfl

theorem bind_eq_ok {x : Except Fault α} {f : α → Except Fault β} {b : β} :
    x.bind f = .ok b ↔ ∃ a, x = .ok a ∧ f a = .ok b := by
  cases x with
  | error e => simp [Except.bind]
  | ok a => simp [Except.bind]

end Forgetting

/-! ## Combinators -/

theorem outcome_map (f : α → β) (read : Reader α) (s : Octets) :
    outcome (read.map f s) = (outcome (read s)).map fun y => (f y.1, y.2) := by
  unfold Reader.map
  cases read s <;> rfl

theorem outcome_andThen (first : Reader α) (second : α → Reader β) (s : Octets) :
    outcome (first.andThen second s) = (outcome (first s)).bind fun y => outcome (second y.1 y.2) := by
  unfold Reader.andThen
  cases first s with
  | error e => rfl
  | ok y =>
    show outcome _ = outcome (second y.1 y.2.1)
    cases h : second y.1 y.2.1 <;> simp only [h] <;> rfl

/-! ## Loops -/

/-- What a count of items leaves does not depend on what there was before them. -/
theorem outcome_foldCount_whole (item : σ → Reader σ) (n : Nat) (state : σ) {s : Octets} (r : Tail s) :
    outcome (foldCount item n state r) = outcome (foldCount item n state (Tail.whole r.1)) := by
  induction n generalizing state s with
  | zero => rfl
  | succ n ih =>
    cases h : item state r.1 with
    | error e => simp only [foldCount, h, show item state (Tail.whole r.1).1 = _ from h, outcome_error]
    | ok y =>
      simp only [foldCount, h, show item state (Tail.whole r.1).1 = _ from h]
      exact (ih y.1 (r.step y.2)).trans (ih y.1 ((Tail.whole r.1).step y.2)).symm

theorem outcome_foldCount_succ (item : σ → Reader σ) (n : Nat) (state : σ) {s : Octets} (r : Tail s) :
    outcome (foldCount item (n + 1) state r) =
      (outcome (item state r.1)).bind fun y => outcome (foldCount item n y.1 (Tail.whole y.2)) := by
  cases h : item state r.1 with
  | error e => simp only [foldCount, h]; rfl
  | ok y => simp only [foldCount, h]; exact outcome_foldCount_whole item n y.1 (r.step y.2)

/-- One item read, the others are read from what it left. -/
theorem outcome_foldCount_cons {item : σ → Reader σ} {n : Nat} {state state' : σ} {s rest : Octets}
    (h : outcome (item state s) = .ok (state', rest)) :
    outcome (foldCount item (n + 1) state (Tail.whole s)) = outcome (foldCount item n state' (Tail.whole rest)) := by
  rw [outcome_foldCount_succ, show (Tail.whole s).1 = s from rfl, h]
  rfl

/-- What the items up to a mark leave does not depend on what there was before them. -/
theorem outcome_foldUntil_whole (mark : Reader Bool) (item : σ → Reader σ) (state : σ) {s : Octets} (r : Tail s) :
    outcome (foldUntil mark item state r) = outcome (foldUntil mark item state (Tail.whole r.1)) := by
  rw [foldUntil, foldUntil.eq_def mark item state (Tail.whole r.1)]
  cases h : mark r.1 with
  | error e => simp only [show mark (Tail.whole r.1).1 = _ from h, outcome_error]
  | ok y =>
    obtain ⟨b, q⟩ := y
    simp only [show mark (Tail.whole r.1).1 = _ from h]
    cases b with
    | true => rfl
    | false =>
      cases h' : item state r.1 with
      | error e => simp only [show item state (Tail.whole r.1).1 = _ from h', outcome_error]
      | ok z =>
        simp only [show item state (Tail.whole r.1).1 = _ from h']
        exact (outcome_foldUntil_whole mark item z.1 (r.step z.2)).trans
          (outcome_foldUntil_whole mark item z.1 ((Tail.whole r.1).step z.2)).symm
termination_by r.1.length
decreasing_by all_goals exact z.2.2

theorem outcome_foldUntil (mark : Reader Bool) (item : σ → Reader σ) (state : σ) {s : Octets} (r : Tail s) :
    outcome (foldUntil mark item state r) =
      (outcome (mark r.1)).bind fun y =>
        if y.1 then .ok (state, y.2)
        else (outcome (item state r.1)).bind fun z => outcome (foldUntil mark item z.1 (Tail.whole z.2)) := by
  rw [foldUntil]
  cases h : mark r.1 with
  | error e => rfl
  | ok y =>
    obtain ⟨b, q⟩ := y
    cases b with
    | true => rfl
    | false =>
      cases h' : item state r.1 with
      | error e => rfl
      | ok z => exact outcome_foldUntil_whole mark item z.1 (r.step z.2)

theorem outcome_foldItems_some (item : σ → Reader σ) (n : Nat) (state : σ) {s : Octets} (r : Rest s) :
    outcome (foldItems item (some n) state r) = outcome (foldCount item n state (Tail.whole r.1)) := by
  unfold foldItems
  simp only
  cases foldCount item n state (Tail.whole r.1) <;> rfl

theorem outcome_foldItems_none (item : σ → Reader σ) (state : σ) {s : Octets} (r : Rest s) :
    outcome (foldItems item none state r) = outcome (foldUntil Head.isStop item state (Tail.whole r.1)) := by
  unfold foldItems
  simp only
  cases foldUntil Head.isStop item state (Tail.whole r.1) <;> rfl

section Invariants

variable {item : σ → Reader σ} {I : σ → Octets → Prop}

theorem foldCount_invariant
    (hitem : ∀ {state s state' rest}, I state s → outcome (item state s) = .ok (state', rest) → I state' rest)
    (n : Nat) {state state' : σ} {s rest : Octets} (hs : I state s)
    (h : outcome (foldCount item n state (Tail.whole s)) = .ok (state', rest)) : I state' rest := by
  induction n generalizing state s with
  | zero => cases h; exact hs
  | succ n ih =>
    rw [outcome_foldCount_succ, bind_eq_ok] at h
    obtain ⟨y, hy, h⟩ := h
    exact ih (hitem hs hy) h

theorem foldUntil_invariant {mark : Reader Bool}
    (hitem : ∀ {state s state' rest}, I state s → outcome (item state s) = .ok (state', rest) → I state' rest)
    (hmark : ∀ {state s rest}, I state s → rest.length < s.length → I state rest) {state state' : σ}
    {s rest : Octets} (hs : I state s)
    (h : outcome (foldUntil mark item state (Tail.whole s)) = .ok (state', rest)) : I state' rest := by
  rw [outcome_foldUntil, bind_eq_ok] at h
  obtain ⟨⟨stop, q⟩, hq, h⟩ := h
  cases stop with
  | true =>
    cases h
    exact hmark hs (exists_of_outcome hq).1
  | false =>
    simp only [Bool.false_eq_true, if_false, bind_eq_ok] at h
    obtain ⟨z, hz, h⟩ := h
    have hlt : z.2.length < s.length := (exists_of_outcome hz).1
    exact foldUntil_invariant hitem hmark (hitem hs hz) h
termination_by s.length

/-- What every item keeps, and what past the closing mark still holds, holds once all items are read. -/
theorem foldItems_invariant
    (hitem : ∀ {state s state' rest}, I state s → outcome (item state s) = .ok (state', rest) → I state' rest)
    (hmark : ∀ {state s rest}, I state s → rest.length < s.length → I state rest) {length : Option Nat}
    {state state' : σ} {s rest : Octets} {r : Rest s} (hr : I state r.1)
    (h : outcome (foldItems item length state r) = .ok (state', rest)) : I state' rest := by
  cases length with
  | some n =>
    rw [outcome_foldItems_some] at h
    exact foldCount_invariant hitem n hr h
  | none =>
    rw [outcome_foldItems_none] at h
    exact foldUntil_invariant hitem hmark hr h

end Invariants

/-! ## Heads past tags -/

namespace Head

/-- What is left behind tags does not depend on what there was before them. -/
theorem outcome_pastFrom_whole (skipped : Nat → Bool) {s : Octets} (r : Tail s) :
    outcome (pastFrom skipped r) = outcome (past skipped r.1) := by
  unfold past
  rw [pastFrom, pastFrom.eq_def skipped (Tail.whole r.1)]
  cases h : read r.1 with
  | error e => simp only [show read (Tail.whole r.1).1 = _ from h, outcome_error]
  | ok y =>
    obtain ⟨head, q⟩ := y
    simp only [show read (Tail.whole r.1).1 = _ from h]
    cases head with
    | tag n =>
      by_cases hn : skipped n
      · simp only [hn, if_true]
        exact (outcome_pastFrom_whole skipped (r.step q)).trans
          (outcome_pastFrom_whole skipped ((Tail.whole r.1).step q)).symm
      · simp only [hn]
        rfl
    | _ => rfl
termination_by r.1.length
decreasing_by all_goals exact q.2

/-- Tags of the class are read past, and the first other head is given. -/
theorem outcome_past (skipped : Nat → Bool) (s : Octets) :
    outcome (past skipped s) =
      (outcome (read s)).bind fun y =>
        match y.1 with
        | .tag n => if skipped n then outcome (past skipped y.2) else .ok y
        | _ => .ok y := by
  rw [past, pastFrom]
  cases h : read s with
  | error e => simp only [show read (Tail.whole s).1 = _ from h]; rfl
  | ok y =>
    obtain ⟨head, q⟩ := y
    simp only [show read (Tail.whole s).1 = _ from h]
    cases head with
    | tag n =>
      by_cases hn : skipped n
      · simp only [hn, if_true]
        rw [outcome_pastFrom_whole]
        simp [outcome, Except.map, Except.bind, hn, Tail.step]
      · simp [outcome, Except.map, Except.bind, hn, Tail.item]
    | _ => rfl

end Head

end CoinRelay.Cbor
