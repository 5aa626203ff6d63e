import CoinRelay.Proofs.Cbor.RoundTrip

/-!
# What is read is about as long as it is written

A reader takes heads of any width, tags and chunks, so what it reads may be written shorter than it came. The other way
round there is one gap: a big number of five octets comes two octets shorter than its head of nine.

- `Head.length_write`: the length of a shortest head, `Head.size`, and `Head.size_le`: no head is shorter than that;
- `size_chunks`, `length_readText`, `length_readKey`: strings never get longer;
- `length_readNatural`: numbers get longer by two octets at most.
-/

namespace CoinRelay.Cbor

namespace Head

/-! ## Heads -/

/-- The length of the shortest head of an argument. -/
def size (n : Nat) : Nat :=
  if n < 24 then 1
  else if n < UInt8.size then 2
  else if n < UInt16.size then 3
  else if n < UInt32.size then 5
  else 9

theorem length_write (major n : Nat) : (write major n).length = size n := by
  simp only [write, size]
  split
  · rfl
  split
  · rw [List.length_cons, Octets.length_bigEndian]
  split
  · rw [List.length_cons, Octets.length_bigEndian]
  split <;> rw [List.length_cons, Octets.length_bigEndian]

theorem size_pos (n : Nat) : 0 < size n := by
  unfold size
  repeat' split
  all_goals omega

theorem size_le_nine (n : Nat) : size n ≤ 9 := by
  unfold size
  repeat' split
  all_goals omega

theorem size_le_five {n : Nat} (h : n < UInt32.size) : size n ≤ 5 := by
  unfold size
  repeat' split
  all_goals omega

theorem size_mono {m n : Nat} (h : m ≤ n) : size m ≤ size n := by
  have h₁ : UInt8.size = 256 := rfl
  have h₂ : UInt16.size = 65536 := rfl
  have h₃ : UInt32.size = 4294967296 := rfl
  unfold size
  repeat' split
  all_goals omega

/-- A head of one or two octets has a small argument. -/
theorem le_of_size_le_two {n : Nat} (h : size n ≤ 2) : n ≤ 128 * size n := by
  have h₁ : UInt8.size = 256 := rfl
  unfold size at h ⊢
  repeat' split
  all_goals split at h <;> omega

/-- The argument of a head that has one. -/
def number? : Head → Option Nat
  | natural n | negative n | tag n => some n
  | octets length | text length | list length | map length => length
  | simple _ | float | stop => none

/-- The fewest octets that a head takes. -/
def least (head : Head) : Nat := head.number?.elim 1 size

theorem number?_of_ofArgument? {major : Nat} {argument : Option Nat} {head : Head}
    (h : ofArgument? major argument = some head) : head.number? = argument := by
  unfold ofArgument? at h
  split at h <;> cases h <;> rfl

theorem number?_ofSimple (info n : Nat) : (ofSimple info n).number? = none := by
  unfold ofSimple
  split <;> rfl

/-- The octets of a number leave room for its head, but for four. -/
theorem size_number_le (o : Octets) : size o.number ≤ o.length + 4 := by
  have hlt := Octets.number_lt o
  have h₁ : UInt8.size = 256 := rfl
  have h₂ : UInt16.size = 65536 := rfl
  have h₃ : UInt32.size = 4294967296 := rfl
  match hl : o.length, hlt with
  | 0, hlt | 1, hlt | 2, hlt | 3, hlt | 4, hlt =>
    have : size o.number ≤ 5 := size_le_five (by omega)
    unfold size
    repeat' split
    all_goals omega
  | d + 5, _ =>
    have := size_le_nine o.number
    omega

/-- An argument that fits into one, two, four or eight octets has a head of one octet more at most. -/
theorem size_le_of_lt_pow {k n : Nat} (hk : k < 4) (h : n < 256 ^ (1 <<< k)) : size n ≤ (1 <<< k) + 1 := by
  have h₁ : UInt8.size = 256 := rfl
  have h₂ : UInt16.size = 65536 := rfl
  have h₃ : UInt32.size = 4294967296 := rfl
  match k, hk with
  | 0, _ | 1, _ | 2, _ =>
    simp only [Nat.reduceShiftLeft, Nat.reducePow] at h ⊢
    unfold size
    repeat' split
    all_goals omega
  | 3, _ => exact size_le_nine n

theorem size_le_of_argument {info n : Nat} {s rest : Octets} (h : outcome (argument info s) = .ok (n, rest)) :
    size n + rest.length ≤ s.length + 1 := by
  obtain ⟨_, h⟩ := exists_of_outcome h
  unfold argument at h
  split at h
  · next hi =>
    cases h
    rw [size, if_pos hi]
    exact Nat.le_of_eq (Nat.add_comm ..)
  split at h
  · next hi =>
    split at h
    · cases h
    · next front q hs =>
      cases h
      obtain ⟨rfl, hl⟩ := Octets.split?_eq_some_iff.1 hs
      have hn := size_le_of_lt_pow (show info - 24 < 4 by omega) (hl ▸ Octets.number_lt front)
      rw [List.length_append]
      omega
  · cases h

/-- No head is shorter than the shortest. -/
theorem least_le_of_read {s rest : Octets} {head : Head} (h : outcome (read s) = .ok (head, rest)) :
    head.least + rest.length ≤ s.length := by
  obtain ⟨_, h⟩ := exists_of_outcome h
  unfold read at h
  split at h
  · cases h
  simp only at h
  split at h
  · split at h
    · cases h
      exact Nat.le_of_eq (Nat.add_comm ..)
    split at h
    · cases h
    next hm =>
      cases h
      rw [least, number?_of_ofArgument? hm]
      exact Nat.le_of_eq (Nat.add_comm ..)
  split at h
  · cases h
  next n r ha =>
    split at h
    · cases h
      rw [least, number?_ofSimple]
      exact Nat.le_trans (Nat.add_le_add_left r.2 1) (Nat.le_of_eq (Nat.add_comm ..))
    split at h
    · cases h
    next hm =>
      cases h
      rw [least, number?_of_ofArgument? hm]
      exact size_le_of_argument (outcome_of_eq_ok ha)

/-- Tags only make a head longer. -/
theorem least_le_of_past {skipped : Nat → Bool} {s rest : Octets} {head : Head}
    (h : outcome (past skipped s) = .ok (head, rest)) : head.least + rest.length ≤ s.length := by
  rw [outcome_past, bind_eq_ok] at h
  obtain ⟨⟨first, q⟩, hq, h⟩ := h
  have hle := least_le_of_read hq
  have hlt : q.length < s.length := (exists_of_outcome hq).1
  split at h
  · split at h
    · have : head.least + rest.length ≤ q.length := least_le_of_past h
      omega
    · cases h
      exact hle
  · cases h
    exact hle
termination_by s.length

end Head

/-! ## Strings -/

theorem of_outcome_take {n : Nat} {s front rest : Octets} {r : Rest s} (h : outcome (take n r) = .ok (front, rest)) :
    r.1 = front ++ rest ∧ front.length = n := by
  obtain ⟨_, h⟩ := exists_of_outcome h
  unfold take at h
  split at h
  · cases h
  · next hs =>
    cases h
    exact Octets.split?_eq_some_iff.1 hs

/-- The octets of chunks, their heads included. -/
def chunksSize (cs : List Octets) : Nat := (cs.map fun c => Head.size c.length + c.length).sum

theorem chunksSize_reverse (cs : List Octets) : chunksSize cs.reverse = chunksSize cs := by
  rw [chunksSize, List.map_reverse, List.sum_reverse]
  rfl

/-- The length in the head of a chunk is its argument. -/
theorem StringKind.number?_of_length? {kind : StringKind} {head : Head} {length : Option Nat}
    (h : kind.length? head = some length) : head.number? = length := by
  unfold StringKind.length? at h
  split at h <;> cases h <;> rfl

/-- The chunks of an open string come with their heads and a stop mark. -/
theorem chunksSize_le {kind : StringKind} {depth : Nat} {read : List Octets} {s rest : Octets} {cs : List Octets}
    {r : Rest s} (h : outcome (chunksFrom kind depth read r) = .ok (cs, rest)) :
    chunksSize cs + rest.length < chunksSize read + r.1.length := by
  fun_induction chunksFrom kind depth read r with
  | case1 => cases h
  | case2 read r q =>
    cases h
    rw [chunksSize_reverse]
    exact Nat.add_lt_add_left q.2 _
  | case3 read r q _ depth ih =>
    exact Nat.lt_trans (ih h) (Nat.add_lt_add_left q.2 _)
  | case4 => cases h
  | case5 depth read r head q _ _ _ ih =>
    exact Nat.lt_trans (ih h) (Nat.add_lt_add_left q.2 _)
  | case6 => cases h
  | case7 depth read r head q _ hread n hlen chunk q' htake ih =>
    have hle := Head.least_le_of_read (outcome_of_eq_ok hread)
    rw [Head.least, StringKind.number?_of_length? hlen] at hle
    obtain ⟨hq, rfl⟩ := of_outcome_take (outcome_of_eq_ok htake)
    have hlen' : q.1.length = chunk.length + q'.1.length := by rw [hq, List.length_append]
    have hcons : chunksSize (chunk :: read) = Head.size chunk.length + chunk.length + chunksSize read := rfl
    have := ih h
    rw [hcons] at this
    have hr : (r.trans q').1.length = q'.1.length := rfl
    have ho : Option.elim (some chunk.length) 1 Head.size = Head.size chunk.length := rfl
    omega

theorem length_flatten_le_chunksSize (cs : List Octets) : cs.flatten.length ≤ chunksSize cs := by
  induction cs with
  | nil => exact Nat.le_refl _
  | cons c cs ih =>
    rw [List.flatten_cons, List.length_append]
    show c.length + cs.flatten.length ≤ Head.size c.length + c.length + chunksSize cs
    omega

/-- Unless their heads take three octets, chunks are small. -/
theorem length_flatten_le_of_chunksSize_le {cs : List Octets} (h : chunksSize cs ≤ cs.flatten.length + 2) :
    cs.flatten.length + 128 * cs.flatten.length ≤ 128 * chunksSize cs := by
  induction cs with
  | nil => exact Nat.le_refl _
  | cons c cs ih =>
    have hc : chunksSize (c :: cs) = Head.size c.length + c.length + chunksSize cs := rfl
    have hle := length_flatten_le_chunksSize cs
    rw [List.flatten_cons, List.length_append, hc] at h ⊢
    have := Head.le_of_size_le_two (n := c.length) (by omega)
    have := ih (by omega)
    omega

/-- Chunks with their heads, an opening head and a stop mark are no shorter than the whole with its head. -/
theorem size_flatten_le_chunksSize {cs : List Octets} (h : cs.flatten.length < UInt32.size) :
    Head.size cs.flatten.length + cs.flatten.length ≤ chunksSize cs + 2 := by
  have h₁ : UInt8.size = 256 := rfl
  have h₂ : UInt16.size = 65536 := rfl
  rcases Nat.lt_or_ge (cs.flatten.length + 2) (chunksSize cs) with hc | hc
  · have := Head.size_le_five h
    omega
  · have := length_flatten_le_of_chunksSize_le hc
    unfold Head.size
    repeat' split
    all_goals omega

/-- **Strings never get longer**: a whole one, with its head, fits where its chunks were. -/
theorem size_chunks_le {kind : StringKind} {length : Option Nat} {s rest : Octets} {cs : List Octets} {r : Rest s}
    (hr : r.1.length < UInt32.size) (h : outcome (chunks kind length r) = .ok (cs, rest)) :
    Head.size cs.flatten.length + cs.flatten.length + rest.length ≤ length.elim 1 Head.size + r.1.length := by
  obtain ⟨_, h⟩ := exists_of_outcome h
  unfold chunks at h
  split at h
  · have hlt := chunksSize_le (outcome_of_eq_ok h)
    have hnil : chunksSize [] = 0 := rfl
    have hle := length_flatten_le_chunksSize cs
    have hsize := size_flatten_le_chunksSize (show cs.flatten.length < UInt32.size by omega)
    simp only [Option.elim_none]
    omega
  · split at h
    · cases h
    next htake =>
      cases h
      obtain ⟨hq, rfl⟩ := of_outcome_take (outcome_of_eq_ok htake)
      rw [hq, List.length_append, Option.elim_some, List.flatten_singleton]
      omega

/-! ## Texts and keys -/

theorem length_writeText (t : String) : (writeText t).length = Head.size t.utf8ByteSize + t.utf8ByteSize := by
  rw [writeText, List.length_append, Head.length_write, Octets.length_ofText]

/-- A text has the octets of the chunks that spell it. -/
theorem utf8ByteSize_of_textOf? {cs : List Octets} {t : String} (h : textOf? cs = some t) :
    t.utf8ByteSize = cs.flatten.length := by
  induction cs generalizing t with
  | nil =>
    cases h
    rfl
  | cons c cs ih =>
    simp only [textOf?, List.mapM_cons, Option.map_eq_some_iff, Option.bind_eq_bind, Option.bind_eq_some_iff,
      Option.pure_def, Option.some.injEq] at h ih
    obtain ⟨_, ⟨u, hu, us, hus, rfl⟩, rfl⟩ := h
    rw [String.join_cons, String.utf8ByteSize_append, List.flatten_cons, List.length_append,
      Octets.text?_eq_some_iff.1 hu, Octets.length_ofText, ih ⟨us, hus, rfl⟩]

/-- **Texts never get longer.** -/
theorem length_readText_le {s rest : Octets} {t : String} (hs : s.length < UInt32.size)
    (h : outcome (readText s) = .ok (t, rest)) : (writeText t).length + rest.length ≤ s.length := by
  obtain ⟨_, h⟩ := exists_of_outcome h
  unfold readText at h
  split at h
  · cases h
  · next length r hhead =>
    have hle := Head.least_le_of_past (outcome_of_eq_ok hhead)
    unfold textAfter at h
    split at h
    · cases h
    next cs q hcs =>
      split at h
      · cases h
      next ht =>
        cases h
        have hchunks := size_chunks_le (Nat.lt_trans r.2 hs) (outcome_of_eq_ok hcs)
        rw [length_writeText, utf8ByteSize_of_textOf? ht]
        exact Nat.le_trans hchunks hle
  · cases h

/-- **Keys never get longer.** -/
theorem length_readKey_le {s rest key : Octets} (h : outcome (readKey s) = .ok (key, rest)) :
    Head.size key.length + key.length + rest.length ≤ s.length := by
  obtain ⟨_, h⟩ := exists_of_outcome h
  unfold readKey at h
  split at h
  · cases h
  · next n r hhead =>
    have hle := Head.least_le_of_past (outcome_of_eq_ok hhead)
    split at h
    · split at h
      · cases h
      next htake =>
        obtain ⟨hr, rfl⟩ := of_outcome_take (outcome_of_eq_ok htake)
        split at h
        · cases h
          rw [hr, List.length_append] at hle
          exact Nat.le_trans (Nat.le_of_eq (Nat.add_assoc ..)) hle
        · cases h
    · cases h
  · next n r hhead =>
    have hle := Head.least_le_of_past (outcome_of_eq_ok hhead)
    split at h
    · obtain ⟨hr, rfl⟩ := of_outcome_take (outcome_of_eq_ok h)
      rw [hr, List.length_append] at hle
      exact Nat.le_trans (Nat.le_of_eq (Nat.add_assoc ..)) hle
    · cases h
  · cases h

/-! ## Numbers -/

/-- The octets of a big number hold it, and their head has at least one octet. -/
theorem length_readBigOctets_le {s rest : Octets} {n : Nat} (hs : s.length < UInt32.size)
    (h : outcome (readBigOctets s) = .ok (n, rest)) : Head.size n + rest.length ≤ s.length + 3 := by
  obtain ⟨_, h⟩ := exists_of_outcome h
  unfold readBigOctets at h
  split at h
  · cases h
  · next length r hhead =>
    have hle : length.elim 1 Head.size + r.1.length ≤ s.length := Head.least_le_of_read (outcome_of_eq_ok hhead)
    split at h
    · cases h
    next cs q hcs =>
      simp only at h
      split at h
      · cases h
        have hchunks := size_chunks_le (Nat.lt_trans r.2 hs) (outcome_of_eq_ok hcs)
        have hn := Head.size_number_le (cs.flatten.dropWhile (· == 0))
        have hdrop := (List.dropWhile_sublist (l := cs.flatten) (· == 0)).length_le
        have hpos := Head.size_pos cs.flatten.length
        omega
      · cases h
  · cases h

/-- **Numbers get longer by two octets at most**, and only where they came as big numbers. -/
theorem length_readNatural_le {s rest : Octets} {n : Nat} (hs : s.length < UInt32.size)
    (h : outcome (readNatural s) = .ok (n, rest)) : (writeNatural n).length + rest.length ≤ s.length + 2 := by
  rw [writeNatural, Head.length_write]
  obtain ⟨_, h⟩ := exists_of_outcome h
  unfold readNatural at h
  split at h
  · cases h
  · next hhead =>
    cases h
    have hle : Head.size n + rest.length ≤ s.length := Head.least_le_of_past (outcome_of_eq_ok hhead)
    omega
  · next r hhead =>
    split at h
    · split at h
      · cases h
      next hbig =>
        cases h
        have hle := r.2
        have := length_readBigOctets_le (Nat.lt_trans r.2 hs) (outcome_of_eq_ok hbig)
        omega
    · cases h
  · cases h

end CoinRelay.Cbor
