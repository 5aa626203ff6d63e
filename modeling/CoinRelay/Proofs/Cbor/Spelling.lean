import CoinRelay.Proofs.Cbor.Delimited

/-!
# All the ways to write a head, a string or a collection

The same thing may be written with wider heads than needed, and strings and collections may be open. Each form is a
relation between what is written and the octets, and is read to the same end.

- `Head.Spelled`: a major type and an argument in any width (`Head.Spelled.outcome_read`);
- `Chunked`: a string, whole or open, with its chunks (`Chunked.exists_chunks`);
- `Bracketed`: the items of a list or a map, counted or open; whatever each of them does is what the fold over all of
  them does (`Bracketed.exists_foldItems`).
-/

namespace CoinRelay.Cbor

/-! ## Heads -/

namespace Head

/-- The octets of a major type and an argument, in any width that holds the argument. -/
inductive Spelled (major n : Nat) : Octets → Prop
  | short (h : n < 24) : Spelled major n [UInt8.ofNat (major * 32 + n)]
  | long {k : Nat} (hk : k < 4) (h : n < 256 ^ (1 <<< k)) :
      Spelled major n (UInt8.ofNat (major * 32 + (24 + k)) :: Octets.bigEndian (1 <<< k) n)

/-- The head of an open string or collection. -/
def opening (major : Nat) : UInt8 := UInt8.ofNat (major * 32 + 31)

/-- The mark that ends an open string or collection. -/
def stopMark : UInt8 := 0xFF

variable {major n : Nat} {w : Octets}

/-- However a head is written, it is a first octet and the octets of the argument. -/
theorem Spelled.exists_eq (h : Spelled major n w) :
    ∃ info tail, info < 28 ∧ w = UInt8.ofNat (major * 32 + info) :: tail ∧
      ∀ rest, outcome (argument info (tail ++ rest)) = .ok (n, rest) := by
  cases h with
  | short h => exact ⟨n, [], by omega, rfl, outcome_argument_short h⟩
  | @long k hk h =>
    refine ⟨24 + k, _, by omega, rfl, ?_⟩
    have := outcome_argument_long (24 + k) (n := n) (by omega) (by omega)
    rw [Nat.add_sub_cancel_left] at this
    exact this h

/-- **Heads are read whatever their width.** -/
theorem Spelled.outcome_read (h : Spelled major n w) {head : Head} (hm : ofArgument? major (some n) = some head)
    (rest : Octets) : outcome (read (w ++ rest)) = .ok (head, rest) := by
  obtain ⟨info, tail, hi, rfl, ha⟩ := h.exists_eq
  exact Head.outcome_read hm (by omega) (ha rest)

/-- The shortest head is one of them. -/
theorem spelled_write (major : Nat) (hn : n < UInt64.size) : Spelled major n (write major n) := by
  simp only [write]
  split
  · next h => exact .short h
  split
  · next h => exact .long (k := 0) (by decide) h
  split
  · next h => exact .long (k := 1) (by decide) h
  split
  · next h => exact .long (k := 2) (by decide) h
  · exact .long (k := 3) (by decide) hn

/-- The first octet of a head holds both of its parts. -/
theorem parts_of_initial {major info : Nat} (hm : major ≤ 7) (hi : info < 32) :
    (UInt8.ofNat (major * 32 + info)).toNat / 32 = major ∧ (UInt8.ofNat (major * 32 + info)).toNat % 32 = info := by
  rw [UInt8.toNat_ofNat']
  omega

theorem outcome_read_opening {head : Head} (hm : ofArgument? major none = some head) (rest : Octets) :
    outcome (read (opening major :: rest)) = .ok (head, rest) := by
  have hle : major ≤ 5 := by
    unfold ofArgument? at hm
    split at hm <;> first | omega | contradiction
  obtain ⟨h₁, h₂⟩ := parts_of_initial (show major ≤ 7 by omega) (show 31 < 32 by decide)
  simp only [read, opening, h₁, h₂, if_true, if_neg (show major ≠ 7 by omega), hm]
  rfl

theorem outcome_read_stopMark (rest : Octets) : outcome (read (stopMark :: rest)) = .ok (stop, rest) := rfl

/-- A head of major type seven with an argument. -/
theorem outcome_read_seven {info : Nat} {s rest : Octets} (hi : info < 31) (ha : outcome (argument info s) = .ok (n, rest)) :
    outcome (read (UInt8.ofNat (7 * 32 + info) :: s)) = .ok (ofSimple info n, rest) := by
  obtain ⟨h₁, h₂⟩ := parts_of_initial (Nat.le_refl 7) (show info < 32 by omega)
  obtain ⟨hr, ha⟩ := exists_of_outcome ha
  simp only [read, h₁, h₂, if_neg (show info ≠ 31 by omega), if_true, ha]
  rfl

/-- A head is no stop mark when it is read as another. -/
theorem isStop_of_read {head : Head} {s rest : Octets} (h : outcome (read s) = .ok (head, rest)) (hs : head ≠ stop) :
    outcome (isStop s) = .ok (false, rest) := by
  rw [isStop, outcome_map, h]
  simp [Except.map, hs]

/-- An argument that was read is written behind a first octet that says how wide it is. -/
theorem exists_spelled_of_argument (major : Nat) {info : Nat} {s : Octets} {r : Tail s} (h : argument info s = .ok (n, r)) :
    ∃ front, s = front ++ r.1 ∧ Spelled major n (UInt8.ofNat (major * 32 + info) :: front) := by
  unfold argument at h
  split at h
  · next hshort =>
    cases h
    exact ⟨[], rfl, .short hshort⟩
  split at h
  · next hlong hlt =>
    split at h
    · cases h
    next front rest hs =>
      cases h
      obtain ⟨rfl, hl⟩ := Octets.split?_eq_some_iff.1 hs
      have hfront := Octets.bigEndian_number front
      rw [hl] at hfront
      have hspelled : Spelled major front.number _ :=
        .long (k := info - 24) (by omega) (hl ▸ Octets.number_lt front)
      rw [hfront, show 24 + (info - 24) = info by omega] at hspelled
      exact ⟨front, rfl, hspelled⟩
  · cases h

/-- A head that announces so many octets is written as such. -/
theorem exists_spelled_of_read {s : Octets} {r : Rest s} (h : read s = .ok (.octets (some n), r)) :
    ∃ w, Spelled 2 n w ∧ s = w ++ r.1 := by
  cases s with
  | nil => cases h
  | cons b s =>
    simp only [read] at h
    split at h
    · split at h
      · cases h
      split at h
      · cases h
      next head hm =>
      -- an open head announces nothing
      cases h
      unfold ofArgument? at hm
      split at hm <;> cases hm
    split at h
    · cases h
    next m q ha =>
    split at h
    · unfold ofSimple at h
      split at h <;> cases h
    split at h
    · cases h
    next head hm =>
    cases h
    have hmajor : b.toNat / 32 = 2 ∧ m = n := by
      unfold ofArgument? at hm
      split at hm <;> simp_all
    obtain ⟨hmajor, rfl⟩ := hmajor
    have hb : b = UInt8.ofNat (2 * 32 + b.toNat % 32) := by
      rw [← hmajor, Nat.mul_comm, Nat.div_add_mod, UInt8.ofNat_toNat]
    obtain ⟨front, hs, hspelled⟩ := exists_spelled_of_argument 2 ha
    rw [← hb] at hspelled
    exact ⟨_, hspelled, congrArg (b :: ·) hs⟩

end Head

/-! ## Readers of given octets -/

section Giving

variable {α β : Type} {w : Octets}

/-- The reader makes `x` of the octets `w`, whatever comes behind them, and what comes behind is left. -/
def Reader.Gives (read : Reader α) (w : Octets) (x : Except Fault α) : Prop :=
  ∀ rest, outcome (read (w ++ rest)) = x.map (·, rest)

/-- A reader that goes on from what another one read, without reading more. -/
theorem Reader.Gives.bind {read : Reader α} {read' : Reader β} {x : Except Fault α} (h : read.Gives w x)
    {f : α → Except Fault β} (hf : ∀ s, outcome (read' s) = (outcome (read s)).bind fun y => (f y.1).map (·, y.2)) :
    read'.Gives w (x.bind f) := by
  intro rest
  rw [hf, h rest]
  cases x <;> rfl

theorem Reader.Gives.map {read : Reader α} {x : Except Fault α} (h : read.Gives w x) (f : α → β) :
    (read.map f).Gives w (x.map f) := by
  intro rest
  rw [outcome_map, h rest]
  cases x <;> rfl

end Giving

/-! ## Collections -/

/-- The octets of a collection of `n` items whose octets are `body`: behind a head that announces their count, or
between an open head and a stop mark. -/
inductive Bracketed (major n : Nat) (body : Octets) : Octets → Prop
  | counted {h : Octets} (hh : Head.Spelled major n h) : Bracketed major n body (h ++ body)
  | opened : Bracketed major n body (Head.opening major :: body ++ [Head.stopMark])

theorem Tail.val_whole (s : Octets) : (Tail.whole s).1 = s := rfl

section Folds

variable {σ ι : Type} {item : σ → Reader σ} {step : σ → ι → Except Fault σ} {spell : ι → Octets}

/-- The item written for `i` takes its own octets, does what `step` says, and starts with no stop mark. -/
structure Steps (item : σ → Reader σ) (step : σ → ι → Except Fault σ) (spell : ι → Octets) (i : ι) : Prop where
  gives : ∀ state, (item state).Gives (spell i) (step state i)
  noStop : ∀ rest, ∃ q, outcome (Head.isStop (spell i ++ rest)) = .ok (false, q)

theorem outcome_foldCount_steps {is : List ι} (hs : ∀ i ∈ is, Steps item step spell i) (state : σ) (rest : Octets) :
    outcome (foldCount item is.length state (Tail.whole (is.flatMap spell ++ rest))) =
      (is.foldlM step state).map (·, rest) := by
  induction is generalizing state with
  | nil => rfl
  | cons i is ih =>
    rw [List.length_cons, outcome_foldCount_succ, List.foldlM_cons, List.flatMap_cons, List.append_assoc]
    rw [Tail.val_whole, (hs i List.mem_cons_self).gives]
    cases step state i with
    | error e => rfl
    | ok state' => exact ih (fun j hj => hs j (List.mem_cons_of_mem _ hj)) state'

theorem outcome_foldUntil_steps {is : List ι} (hs : ∀ i ∈ is, Steps item step spell i) (state : σ) (rest : Octets) :
    outcome (foldUntil Head.isStop item state (Tail.whole (is.flatMap spell ++ Head.stopMark :: rest))) =
      (is.foldlM step state).map (·, rest) := by
  induction is generalizing state with
  | nil =>
    rw [outcome_foldUntil]
    rfl
  | cons i is ih =>
    obtain ⟨q, hq⟩ := (hs i List.mem_cons_self).noStop (is.flatMap spell ++ Head.stopMark :: rest)
    rw [outcome_foldUntil, List.foldlM_cons, List.flatMap_cons, List.append_assoc]
    rw [Tail.val_whole, hq, (hs i List.mem_cons_self).gives]
    cases step state i with
    | error e => rfl
    | ok state' => exact ih (fun j hj => hs j (List.mem_cons_of_mem _ hj)) state'

/-- **A collection does what its items do**, counted or open, and takes its own octets. -/
theorem Bracketed.exists_foldItems {major : Nat} {make : Option Nat → Head} {is : List ι} {w : Octets}
    (hb : Bracketed major is.length (is.flatMap spell) w) (hm : ∀ n, Head.ofArgument? major n = some (make n))
    (hs : ∀ i ∈ is, Steps item step spell i) (rest : Octets) :
    ∃ length s, outcome (Head.read (w ++ rest)) = .ok (make length, s) ∧
      ∀ {t : Octets} (r : Rest t), r.1 = s → ∀ state,
        outcome (foldItems item length state r) = (is.foldlM step state).map (·, rest) := by
  cases hb with
  | counted hh =>
    rw [List.append_assoc]
    refine ⟨_, _, hh.outcome_read (hm _) _, fun r hr state => ?_⟩
    rw [outcome_foldItems_some, hr]
    exact outcome_foldCount_steps hs state rest
  | opened =>
    rw [List.append_assoc]
    refine ⟨_, _, Head.outcome_read_opening (hm none) _, fun r hr state => ?_⟩
    rw [outcome_foldItems_none, hr]
    exact outcome_foldUntil_steps hs state rest

end Folds

/-! ## Strings -/

/-- The major type of strings of the kind. -/
def StringKind.major : StringKind → Nat
  | octets => 2
  | text => 3

/-- The head of a string of the kind. -/
def StringKind.head : StringKind → Option Nat → Head
  | octets, n => .octets n
  | text, n => .text n

theorem StringKind.ofArgument?_major (kind : StringKind) (n : Option Nat) :
    Head.ofArgument? kind.major n = some (kind.head n) := by
  cases kind <;> rfl

/-- What stands between an open head and its stop mark: chunks that come whole, and open strings with chunks of their
own. -/
inductive Pieces (kind : StringKind) : List Octets → Octets → Prop
  | nil : Pieces kind [] []
  | whole {c h w : Octets} {cs : List Octets} (hh : Head.Spelled kind.major c.length h) (hw : Pieces kind cs w) :
      Pieces kind (c :: cs) (h ++ c ++ w)
  | nested {cs cs' : List Octets} {w w' : Octets} (hw : Pieces kind cs w) (hw' : Pieces kind cs' w') :
      Pieces kind (cs ++ cs') (Head.opening kind.major :: w ++ Head.stopMark :: w')

/-- The octets of a string with its chunks: a single one when it comes whole. -/
inductive Chunked (kind : StringKind) : List Octets → Octets → Prop
  | whole {c h : Octets} (hh : Head.Spelled kind.major c.length h) : Chunked kind [c] (h ++ c)
  | opened {cs : List Octets} {w : Octets} (hw : Pieces kind cs w) :
      Chunked kind cs (Head.opening kind.major :: w ++ [Head.stopMark])

section Strings

variable {kind : StringKind} {cs : List Octets} {w : Octets}

/-- A chunk that comes whole is put to those read before. -/
theorem chunksFrom_whole {depth n : Nat} {read : List Octets} {c s : Octets} {r : Rest s} {q p : Rest r.1}
    (hread : Head.read r.1 = .ok (kind.head (some n), q)) (htake : take n q = .ok (c, p)) :
    chunksFrom kind depth read r = chunksFrom kind depth (c :: read) (r.trans p) := by
  rw [chunksFrom, hread]
  cases kind <;> simp only [StringKind.head, StringKind.length?, htake]

theorem chunksFrom_opening {depth : Nat} {read : List Octets} {s : Octets} {r : Rest s} {q : Rest r.1}
    (hread : Head.read r.1 = .ok (kind.head none, q)) :
    chunksFrom kind depth read r = chunksFrom kind (depth + 1) read (r.trans q) := by
  rw [chunksFrom, hread]
  cases kind <;> rfl

/-- The pieces of an open string are read, and reading goes on behind them. -/
theorem Pieces.outcome_chunksFrom (h : Pieces kind cs w) {depth : Nat} {read : List Octets} {rest : Octets}
    {y : Except Fault (List Octets × Octets)}
    (hnext : ∀ {s : Octets} (r : Rest s), r.1 = rest → outcome (chunksFrom kind depth (cs.reverse ++ read) r) = y)
    {s : Octets} (r : Rest s) (hr : r.1 = w ++ rest) : outcome (chunksFrom kind depth read r) = y := by
  induction h generalizing depth read rest s with
  | nil => exact hnext r hr
  | @whole c h w cs hh _ ih =>
    rw [List.append_assoc, List.append_assoc] at hr
    obtain ⟨q, hread, hq⟩ := exists_rest_of_outcome (hr ▸ hh.outcome_read (kind.ofArgument?_major _) (c ++ (w ++ rest)))
    obtain ⟨p, htake, hp⟩ := exists_rest_of_outcome (outcome_take hq rfl)
    rw [chunksFrom_whole hread htake]
    refine ih (fun r hr => ?_) _ hp
    have := hnext r hr
    rwa [List.reverse_cons, List.append_assoc] at this
  | @nested cs cs' w w' _ _ ih ih' =>
    rw [List.append_assoc, List.cons_append, List.cons_append] at hr
    obtain ⟨q, hread, hq⟩ := exists_rest_of_outcome
      (hr ▸ Head.outcome_read_opening (kind.ofArgument?_major none) (w ++ Head.stopMark :: (w' ++ rest)))
    rw [chunksFrom_opening hread]
    -- behind the inner string its stop mark takes the depth back
    refine ih (fun r hr => ?_) _ hq
    obtain ⟨p, hstop, hp⟩ := exists_rest_of_outcome (hr ▸ Head.outcome_read_stopMark (w' ++ rest))
    rw [chunksFrom, hstop]
    refine ih' (fun r hr => ?_) _ hp
    have := hnext r hr
    rwa [List.reverse_append, List.append_assoc] at this

/-- **Strings are read**, whole or open, and give their chunks. -/
theorem Chunked.exists_chunks (h : Chunked kind cs w) (rest : Octets) :
    ∃ length s, outcome (Head.read (w ++ rest)) = .ok (kind.head length, s) ∧
      ∀ {t : Octets} (r : Rest t), r.1 = s → outcome (chunks kind length r) = .ok (cs, rest) := by
  cases h with
  | @whole c h hh =>
    rw [List.append_assoc]
    refine ⟨_, _, hh.outcome_read (kind.ofArgument?_major _) _, fun r hr => ?_⟩
    obtain ⟨q, htake, rfl⟩ := exists_rest_of_outcome (outcome_take hr rfl)
    simp only [chunks, htake]
    rfl
  | opened hw =>
    rw [List.append_assoc]
    refine ⟨_, _, Head.outcome_read_opening (kind.ofArgument?_major none) _, fun r hr => ?_⟩
    refine hw.outcome_chunksFrom (fun r' hr' => ?_) r hr
    rw [List.singleton_append] at hr'
    obtain ⟨p, hstop, rfl⟩ := exists_rest_of_outcome (hr' ▸ Head.outcome_read_stopMark rest)
    rw [chunksFrom, hstop, List.append_nil]
    exact congrArg (fun cs => Except.ok (cs, _)) (List.reverse_reverse cs)

end Strings

/-! ## Texts -/

theorem textOf?_map_ofText (ts : List String) : textOf? (ts.map Octets.ofText) = some (String.join ts) := by
  have hmap : (ts.map Octets.ofText).mapM Octets.text? = some ts := by
    induction ts with
    | nil => rfl
    | cons t ts ih => simp [Octets.text?_ofText, ih]
  rw [textOf?, hmap]
  rfl

/-- **Texts are read**, whole or in chunks. -/
theorem Chunked.exists_textAfter {ts : List String} {w : Octets} (h : Chunked .text (ts.map Octets.ofText) w)
    (rest : Octets) :
    ∃ length s, outcome (Head.read (w ++ rest)) = .ok (.text length, s) ∧
      ∀ {t : Octets} (r : Rest t), r.1 = s → outcome (textAfter length r) = .ok (String.join ts, rest) := by
  obtain ⟨length, s, hread, hchunks⟩ := h.exists_chunks rest
  refine ⟨length, s, hread, fun r hr => ?_⟩
  obtain ⟨q, hcs, rfl⟩ := exists_rest_of_outcome (hchunks r hr)
  simp only [textAfter, hcs, textOf?_map_ofText]
  rfl

/-! ## Integers -/

/-- The octets of an integer: a number of either major type, or a big number of a few octets behind its tag. A negative
big number fits 128 bits with its sign. -/
inductive Integer : Int → Octets → Prop
  | natural {n : Nat} {w : Octets} (hw : Head.Spelled 0 n w) : Integer (.ofNat n) w
  | negative {n : Nat} {w : Octets} (hw : Head.Spelled 1 n w) : Integer (.negSucc n) w
  | bigNatural {t h o : Octets} (ht : Head.Spelled 6 bigNatural t) (hh : Head.Spelled 2 o.length h)
      (ho : o.length ≤ maxBigOctets) : Integer (.ofNat o.number) (t ++ h ++ o)
  | bigNegative {t h o : Octets} (ht : Head.Spelled 6 bigNegative t) (hh : Head.Spelled 2 o.length h)
      (ho : o.length ≤ maxBigOctets) (hn : o.number < 1 <<< 127) : Integer (.negSucc o.number) (t ++ h ++ o)

/-- The octet string of a big number, whole or open. -/
theorem readBigOctets_gives {cs : List Octets} {w : Octets} (h : Chunked .octets cs w) :
    readBigOctets.Gives w (if (cs.flatten.dropWhile (· == 0)).length ≤ maxBigOctets then .ok (Octets.number cs.flatten)
      else .error .malformed) := by
  intro rest
  obtain ⟨length, s, hread, hchunks⟩ := h.exists_chunks rest
  obtain ⟨r, hread, hr⟩ := exists_rest_of_outcome hread
  obtain ⟨q, hcs, hq⟩ := exists_rest_of_outcome (hchunks r hr)
  rw [StringKind.head] at hread
  simp only [readBigOctets, hread, hcs, Octets.number_dropWhile_zero]
  split
  · exact congrArg (fun o => Except.ok (_, o)) hq
  · rfl

theorem readBigOctets_gives_whole {h o : Octets} (hh : Head.Spelled 2 o.length h) (ho : o.length ≤ maxBigOctets) :
    readBigOctets.Gives (h ++ o) (.ok o.number) := by
  have hchunked : Chunked .octets [o] (h ++ o) := .whole hh
  have hle : (o.dropWhile (· == 0)).length ≤ maxBigOctets :=
    Nat.le_trans (List.dropWhile_sublist _).length_le ho
  have hgives := readBigOctets_gives hchunked
  rwa [List.flatten_singleton, if_pos hle] at hgives

end CoinRelay.Cbor
