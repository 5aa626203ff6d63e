import CoinRelay.Proofs.Cbor.Spelling

/-!
# Well-formed items

`Item depth w` says that the octets `w` are one well-formed item that nests at most `depth` levels. It does not speak of
readers: an item is built from smaller ones as the format has it, in any of the ways to write each part.

- `Item.skipper_gives`: reading past an item takes the octets of it and no more;
- `Item.exists_readText_gives`, `Item.exists_readNatural_gives`: a text and a number are read from an item, or refused,
  whatever comes behind it.
-/

namespace CoinRelay.Cbor

/-- The octets start with the head of an octet string that is short enough for a big number. -/
def StartsShort (w : Octets) : Prop := ∃ n h o, Head.Spelled 2 n h ∧ n ≤ maxBigOctets ∧ w = h ++ o

/-- The octets are a well-formed item that nests at most so many levels of lists, maps and tags. The tag of a big number
in front of a short octet string makes an integer, which nests none. -/
inductive Item : Nat → Octets → Prop
  | integer {d : Nat} {i : Int} {w : Octets} (hw : Integer i w) : Item d w
  | float {d k : Nat} {o : Octets} (hk : 0 < k) (hk' : k < 4) (ho : o.length = 1 <<< k) :
      Item d (UInt8.ofNat (7 * 32 + (24 + k)) :: o)
  | simple {d n : Nat} {w : Octets} (hw : Head.Spelled 7 n w) (hn : isKnownSimple n) : Item d w
  | octets {d : Nat} {cs : List Octets} {w : Octets} (hw : Chunked .octets cs w) : Item d w
  | text {d : Nat} {ts : List String} {w : Octets} (hw : Chunked .text (ts.map Octets.ofText) w) : Item d w
  | list {d : Nat} {ws : List Octets} {w : Octets} (hs : ∀ v ∈ ws, Item d v) (hw : Bracketed 4 ws.length ws.flatten w) :
      Item (d + 1) w
  | map {d : Nat} {ps : List (Octets × Octets)} {w : Octets} (hk : ∀ p ∈ ps, Item d p.1) (hv : ∀ p ∈ ps, Item d p.2)
      (hw : Bracketed 5 ps.length (ps.flatMap fun p => p.1 ++ p.2) w) : Item (d + 1) w
  | tagged {d n : Nat} {t w : Octets} (ht : Head.Spelled 6 n t) (hw : Item d w)
      (hn : n = bigNatural ∨ n = bigNegative → ¬ StartsShort w) : Item (d + 1) (t ++ w)

/-! ## Heads of items -/

namespace Head

/-- The heads of numbers and of the simple values that may be skipped: the head is the whole item. -/
def isAtom : Head → Bool
  | natural _ | negative _ | float => true
  | simple n => isKnownSimple n
  | _ => false

theorem outcome_read_float {k : Nat} {o : Octets} (hk : 0 < k) (hk' : k < 4) (ho : o.length = 1 <<< k) (rest : Octets) :
    outcome (read (UInt8.ofNat (7 * 32 + (24 + k)) :: o ++ rest)) = .ok (float, rest) := by
  have ha := outcome_argument_long (24 + k) (n := Octets.number o) (by omega) (by omega)
  rw [Nat.add_sub_cancel_left, ← ho, Octets.bigEndian_number] at ha
  have hread := outcome_read_seven (by omega) (ha (Octets.number_lt o) rest)
  rwa [ofSimple, if_neg (by omega)] at hread

/-- A simple value in one or two octets; in more it is a float. -/
theorem Spelled.outcome_read_simple {n : Nat} {w : Octets} (h : Spelled 7 n w) (rest : Octets) :
    outcome (read (w ++ rest)) = .ok (simple n, rest) ∨ outcome (read (w ++ rest)) = .ok (float, rest) := by
  cases h with
  | short h =>
    left
    have hread := outcome_read_seven (by omega) (outcome_argument_short h rest)
    rwa [ofSimple, if_pos (by omega)] at hread
  | @long k hk h =>
    cases k with
    | zero => exact .inl (outcome_read_seven (by decide) (outcome_argument_long 24 (by omega) (by omega) h rest))
    | succ k =>
      exact .inr (outcome_read_float (by omega) hk (Octets.length_bigEndian _ _) rest)

end Head

/-! ## Reading past items -/

section Skipping

variable {inner : Option (Reader Unit)} {s s' rest : Octets}

theorem exists_skipper_eq (depth : Nat) : ∃ inner, skipper depth = skipWith inner := by
  cases depth with
  | zero => exact ⟨none, rfl⟩
  | succ depth => exact ⟨some (skipper depth), rfl⟩

theorem outcome_skipWith_atom {head : Head} (hread : outcome (Head.read s) = .ok (head, rest)) (ha : head.isAtom) :
    outcome (skipWith inner s) = .ok ((), rest) := by
  obtain ⟨r, hs, rfl⟩ := exists_rest_of_outcome hread
  simp only [skipWith, hs]
  cases head with
  | simple n =>
    simp only [if_pos (show isKnownSimple n = true from ha)]
    rfl
  | natural | negative | float => rfl
  | _ => cases ha

theorem outcome_skipWith_octets {length : Option Nat} {cs : List Octets}
    (hread : outcome (Head.read s) = .ok (.octets length, s'))
    (hcs : ∀ r : Rest s, r.1 = s' → outcome (chunks .octets length r) = .ok (cs, rest)) :
    outcome (skipWith inner s) = .ok ((), rest) := by
  obtain ⟨r, hs, hr⟩ := exists_rest_of_outcome hread
  obtain ⟨q, hchunks, rfl⟩ := exists_rest_of_outcome (hcs r hr)
  simp only [skipWith, hs, hchunks]
  rfl

theorem outcome_skipWith_text {length : Option Nat} {t : String}
    (hread : outcome (Head.read s) = .ok (.text length, s'))
    (ht : ∀ r : Rest s, r.1 = s' → outcome (textAfter length r) = .ok (t, rest)) :
    outcome (skipWith inner s) = .ok ((), rest) := by
  obtain ⟨r, hs, hr⟩ := exists_rest_of_outcome hread
  obtain ⟨q, htext, rfl⟩ := exists_rest_of_outcome (ht r hr)
  simp only [skipWith, hs, htext]
  rfl

theorem outcome_skipWith_list {item : Reader Unit} {length : Option Nat}
    (hread : outcome (Head.read s) = .ok (.list length, s'))
    (hitems : ∀ r : Rest s, r.1 = s' → outcome (foldItems (fun _ => item) length () r) = .ok ((), rest)) :
    outcome (skipWith (some item) s) = .ok ((), rest) := by
  obtain ⟨r, hs, hr⟩ := exists_rest_of_outcome hread
  simp only [skipWith, hs]
  exact hitems r hr

theorem outcome_skipWith_map {item : Reader Unit} {length : Option Nat}
    (hread : outcome (Head.read s) = .ok (.map length, s'))
    (hitems : ∀ r : Rest s, r.1 = s' →
      outcome (foldItems (fun _ => item.andThen fun _ => item) length () r) = .ok ((), rest)) :
    outcome (skipWith (some item) s) = .ok ((), rest) := by
  obtain ⟨r, hs, hr⟩ := exists_rest_of_outcome hread
  simp only [skipWith, hs]
  exact hitems r hr

theorem outcome_skipWith_tag {item : Reader Unit} {n : Nat} (hread : outcome (Head.read s) = .ok (.tag n, s'))
    (hn : n = bigNatural ∨ n = bigNegative → bigOctetsNext s' = false) (hitem : outcome (item s') = .ok ((), rest)) :
    outcome (skipWith (some item) s) = .ok ((), rest) := by
  obtain ⟨r, hs, rfl⟩ := exists_rest_of_outcome hread
  obtain ⟨q, hq, rfl⟩ := exists_rest_of_outcome hitem
  have hplain : ¬ ((n = bigNatural || n = bigNegative) && bigOctetsNext r.1) = true := by
    simpa using hn
  simp only [skipWith, hs, if_neg hplain, hq]
  rfl

theorem outcome_skipWith_big {n m : Nat} (hread : outcome (Head.read s) = .ok (.tag n, s'))
    (hn : n = bigNatural ∨ n = bigNegative) (hnext : bigOctetsNext s')
    (hbig : outcome (readBigOctets s') = .ok (m, rest)) (hm : n = bigNegative → m < 1 <<< 127) :
    outcome (skipWith inner s) = .ok ((), rest) := by
  obtain ⟨r, hs, rfl⟩ := exists_rest_of_outcome hread
  obtain ⟨q, hq, rfl⟩ := exists_rest_of_outcome hbig
  have htag : ((n = bigNatural || n = bigNegative) && bigOctetsNext r.1) = true := by
    simpa [hnext] using hn
  have hfits : ¬ (n = bigNegative && decide (1 <<< 127 ≤ m)) = true := by
    simpa only [Bool.and_eq_true, decide_eq_true_eq, not_and, Nat.not_le] using hm
  simp only [skipWith, hs, if_pos htag, skipBig, hq, if_neg hfits]
  rfl

/-- What is read past starts with no stop mark. -/
theorem isStop_of_skipWith (h : outcome (skipWith inner s) = .ok ((), rest)) :
    ∃ q, outcome (Head.isStop s) = .ok (false, q) := by
  obtain ⟨_, hskip⟩ := exists_of_outcome h
  obtain ⟨⟨head, r⟩, hread⟩ := exists_read_of_skipWith hskip
  refine ⟨_, Head.isStop_of_read (outcome_of_eq_ok hread) ?_⟩
  rintro rfl
  simp only [skipWith, hread] at hskip
  cases inner <;> cases hskip

/-- What starts with no short octet string starts with none when more comes behind. -/
theorem bigOctetsNext_eq_false (h : outcome (skipWith inner s) = .ok ((), [])) (hs : ¬ StartsShort s) :
    bigOctetsNext (s ++ rest) = false := by
  obtain ⟨_, h⟩ := exists_of_outcome h
  obtain ⟨y, hread⟩ := exists_read_of_skipWith h
  rw [bigOctetsNext_append rfl hread, bigOctetsNext]
  split
  · next n r hr =>
    obtain ⟨w, hw, hsplit⟩ := Head.exists_spelled_of_read hr
    exact decide_eq_false fun hn => hs ⟨n, w, r.1, hw, hn, hsplit⟩
  · rfl

theorem bigOctetsNext_of_spelled {n : Nat} {w : Octets} (hw : Head.Spelled 2 n w) (hn : n ≤ maxBigOctets) :
    bigOctetsNext (w ++ rest) = true := by
  obtain ⟨r, hread, -⟩ := exists_rest_of_outcome (hw.outcome_read rfl rest)
  rw [bigOctetsNext, hread]
  exact decide_eq_true hn

/-- A big number is read past, a negative one when it fits. -/
theorem skipWith_gives_big {n : Nat} {t h o : Octets} (ht : Head.Spelled 6 n t) (hn : n = bigNatural ∨ n = bigNegative)
    (hh : Head.Spelled 2 o.length h) (ho : o.length ≤ maxBigOctets) (hm : n = bigNegative → o.number < 1 <<< 127) :
    (skipWith inner).Gives (t ++ h ++ o) (.ok ()) := by
  intro rest
  have hbig := readBigOctets_gives_whole hh ho rest
  rw [List.append_assoc] at hbig
  rw [List.append_assoc, List.append_assoc]
  exact outcome_skipWith_big (ht.outcome_read rfl _) hn (bigOctetsNext_of_spelled hh ho) hbig hm

/-- An integer is read past. -/
theorem Integer.skipWith_gives {i : Int} {w : Octets} (h : Integer i w) : (skipWith inner).Gives w (.ok ()) := by
  cases h with
  | natural hw => exact fun rest => outcome_skipWith_atom (hw.outcome_read rfl rest) rfl
  | negative hw => exact fun rest => outcome_skipWith_atom (hw.outcome_read rfl rest) rfl
  | bigNatural ht hh ho => exact skipWith_gives_big ht (.inl rfl) hh ho (fun hn => by cases hn)
  | bigNegative ht hh ho hm => exact skipWith_gives_big ht (.inr rfl) hh ho (fun _ => hm)

/-- What is read past whatever may nest in it is read past at any depth. -/
theorem skipper_gives_of {w : Octets} (h : ∀ inner, (skipWith inner).Gives w (.ok ())) (depth : Nat) :
    (skipper depth).Gives w (.ok ()) := by
  obtain ⟨inner, hinner⟩ := exists_skipper_eq depth
  exact hinner ▸ h inner

/-- An item that is read past takes one step of a fold. -/
theorem steps_skipper {depth : Nat} {w : Octets} (h : (skipper depth).Gives w (.ok ())) :
    Steps (fun _ : Unit => skipper depth) (fun _ _ => .ok ()) id w where
  gives _ := h
  noStop rest := by
    obtain ⟨inner, hinner⟩ := exists_skipper_eq depth
    exact isStop_of_skipWith (hinner ▸ h rest)

/-- Two items that are read past, one after the other, take one step of a fold. -/
theorem steps_skipper_pair {depth : Nat} {p : Octets × Octets} (h₁ : (skipper depth).Gives p.1 (.ok ()))
    (h₂ : (skipper depth).Gives p.2 (.ok ())) :
    Steps (fun _ : Unit => (skipper depth).andThen fun _ => skipper depth) (fun _ _ => .ok ()) (fun p => p.1 ++ p.2) p where
  gives _ rest := by
    rw [List.append_assoc, outcome_andThen, h₁]
    exact h₂ rest
  noStop rest := by
    rw [List.append_assoc]
    exact (steps_skipper h₁).noStop (p.2 ++ rest)

theorem foldlM_skipped {ι : Type} (is : List ι) :
    is.foldlM (fun (_ : Unit) _ => (.ok () : Except Fault Unit)) () = .ok () := by
  induction is with
  | nil => rfl
  | cons _ is ih => exact ih

/-- **Reading past an item takes the octets of it and no more.** -/
theorem Item.skipper_gives {depth : Nat} {w : Octets} (h : Item depth w) : (skipper depth).Gives w (.ok ()) := by
  induction h with
  | integer hw => exact skipper_gives_of (fun _ => hw.skipWith_gives) _
  | float hk hk' ho =>
    exact skipper_gives_of (fun _ rest => outcome_skipWith_atom (Head.outcome_read_float hk hk' ho rest) rfl) _
  | simple hw hn =>
    refine skipper_gives_of (fun _ rest => ?_) _
    rcases hw.outcome_read_simple rest with hread | hread
    · exact outcome_skipWith_atom hread hn
    · exact outcome_skipWith_atom hread rfl
  | octets hw =>
    refine skipper_gives_of (fun _ rest => ?_) _
    obtain ⟨length, s, hread, hcs⟩ := hw.exists_chunks rest
    exact outcome_skipWith_octets hread fun r => hcs r
  | text hw =>
    refine skipper_gives_of (fun _ rest => ?_) _
    obtain ⟨length, s, hread, ht⟩ := hw.exists_textAfter rest
    exact outcome_skipWith_text hread fun r => ht r
  | @list d ws w _ hw ih =>
    rw [← List.flatMap_id] at hw
    intro rest
    obtain ⟨length, s, hread, hitems⟩ := hw.exists_foldItems (fun _ => rfl) (fun v hv => steps_skipper (ih v hv)) rest
    refine outcome_skipWith_list hread fun r hr => ?_
    rw [hitems r hr, foldlM_skipped]
    rfl
  | @map d ps w _ _ hw ihk ihv =>
    intro rest
    obtain ⟨length, s, hread, hitems⟩ :=
      hw.exists_foldItems (fun _ => rfl) (fun p hp => steps_skipper_pair (ihk p hp) (ihv p hp)) rest
    refine outcome_skipWith_map hread fun r hr => ?_
    rw [hitems r hr, foldlM_skipped]
    rfl
  | @tagged d n t w ht _ hn ih =>
    intro rest
    rw [List.append_assoc]
    refine outcome_skipWith_tag (ht.outcome_read rfl _) (fun hbig => ?_) (ih rest)
    obtain ⟨inner, hinner⟩ := exists_skipper_eq d
    have hskip := ih []
    rw [List.append_nil, hinner] at hskip
    exact bigOctetsNext_eq_false hskip (hn hbig)

end Skipping

/-! ## The heads in front -/

/-- Whatever comes behind them, the octets start with a head of the class. -/
def Leads (w : Octets) (P : Head → Prop) : Prop := ∀ rest, ∃ head s, outcome (Head.read (w ++ rest)) = .ok (head, s) ∧ P head

section Leading

variable {n : Nat} {w : Octets} {P : Head → Prop}

theorem Leads.append (h : Leads w P) (v : Octets) : Leads (w ++ v) P := by
  intro rest
  rw [List.append_assoc]
  exact h (v ++ rest)

theorem Head.Spelled.leads {major : Nat} {head : Head} (h : Head.Spelled major n w)
    (hm : Head.ofArgument? major (some n) = some head) : Leads w (· = head) :=
  fun rest => ⟨head, rest, h.outcome_read hm rest, rfl⟩

/-- The heads of floats, simple values, lists and maps, which are read in place of no text and no number. -/
def Head.isOther : Head → Bool
  | .float | .simple _ | .list _ | .map _ => true
  | _ => false

theorem leads_float {k : Nat} {o : Octets} (hk : 0 < k) (hk' : k < 4) (ho : o.length = 1 <<< k) :
    Leads (UInt8.ofNat (7 * 32 + (24 + k)) :: o) fun head => head.isOther :=
  fun rest => ⟨.float, rest, Head.outcome_read_float hk hk' ho rest, rfl⟩

theorem Head.Spelled.leads_simple (h : Head.Spelled 7 n w) : Leads w fun head => head.isOther := by
  intro rest
  rcases h.outcome_read_simple rest with hread | hread
  · exact ⟨_, _, hread, rfl⟩
  · exact ⟨_, _, hread, rfl⟩

theorem Chunked.leads {kind : StringKind} {cs : List Octets} (h : Chunked kind cs w) :
    Leads w fun head => ∃ length, head = kind.head length := by
  intro rest
  obtain ⟨length, s, hread, -⟩ := h.exists_chunks rest
  exact ⟨_, _, hread, length, rfl⟩

theorem Bracketed.leads {major : Nat} {body : Octets} {make : Option Nat → Head} (h : Bracketed major n body w)
    (hm : ∀ n, Head.ofArgument? major n = some (make n)) (hP : ∀ n, P (make n)) : Leads w P := by
  cases h with
  | counted hh => exact Leads.append (fun rest => ⟨_, _, hh.outcome_read (hm _) rest, hP _⟩) body
  | opened => exact fun rest => ⟨_, _, Head.outcome_read_opening (hm none) _, hP none⟩

/-- Items by what their heads say: an integer, a string of either kind, something behind a tag, or none of these. -/
@[elab_as_elim]
theorem Item.induction_on_head {motive : (d : Nat) → (w : Octets) → Item d w → Prop}
    (integer : ∀ {d : Nat} {i : Int} {w : Octets} (hw : Integer i w), motive d w (.integer hw))
    (octets : ∀ {d : Nat} {cs : List Octets} {w : Octets} (hw : Chunked .octets cs w), motive d w (.octets hw))
    (text : ∀ {d : Nat} {ts : List String} {w : Octets} (hw : Chunked .text (ts.map Octets.ofText) w),
      motive d w (.text hw))
    (other : ∀ {d : Nat} {w : Octets} (h : Item d w), (Leads w fun head => head.isOther) → motive d w h)
    (tagged : ∀ {d n : Nat} {t w : Octets} (ht : Head.Spelled 6 n t) (hw : Item d w)
      (hn : n = bigNatural ∨ n = bigNegative → ¬ StartsShort w), motive d w hw → motive (d + 1) (t ++ w) (.tagged ht hw hn))
    {d : Nat} {w : Octets} (h : Item d w) : motive d w h := by
  induction h with
  | integer hw => exact integer hw
  | float hk hk' ho => exact other _ (leads_float hk hk' ho)
  | simple hw => exact other _ hw.leads_simple
  | octets hw => exact octets hw
  | text hw => exact text hw
  | list _ hw => exact other _ (hw.leads (fun _ => rfl) fun _ => rfl)
  | map _ _ hw => exact other _ (hw.leads (fun _ => rfl) fun _ => rfl)
  | tagged ht hw hn ih => exact tagged ht hw hn ih

end Leading

/-! ## Texts and numbers in place of items -/

section Reading

variable {w : Octets} {P : Head → Prop}

/-- A tag is read past when it is of the class, and given otherwise. -/
theorem Head.Spelled.outcome_past {n : Nat} {t : Octets} (ht : Head.Spelled 6 n t) (skipped : Nat → Bool) (s : Octets) :
    outcome (Head.past skipped (t ++ s)) = if skipped n then outcome (Head.past skipped s) else .ok (.tag n, s) := by
  rw [Head.outcome_past, ht.outcome_read rfl s]
  rfl

/-- What a number is made of, seen from outside. -/
theorem outcome_readNatural (s : Octets) :
    outcome (readNatural s) = (outcome (Head.past (fun n => n ≠ bigNatural && n ≠ bigNegative) s)).bind fun y =>
      match y.1 with
      | .natural n => .ok (n, y.2)
      | .tag n => if n = bigNatural then outcome (readBigOctets y.2) else .error .malformed
      | _ => .error .malformed := by
  unfold readNatural
  cases Head.past (fun n => n ≠ bigNatural && n ≠ bigNegative) s with
  | error e => rfl
  | ok y =>
    obtain ⟨head, r⟩ := y
    cases head with
    | tag n =>
      by_cases hn : n = bigNatural
      · simp only [outcome, Except.map, Except.bind, if_pos hn]
        cases readBigOctets r.1 <;> rfl
      · simp only [outcome, Except.map, Except.bind, if_neg hn]
    | _ => rfl

theorem outcome_readNatural_tag {n : Nat} {t : Octets} (ht : Head.Spelled 6 n t) (s : Octets) :
    outcome (readNatural (t ++ s)) =
      if n = bigNatural then outcome (readBigOctets s)
      else if n = bigNegative then .error .malformed else outcome (readNatural s) := by
  rw [outcome_readNatural, ht.outcome_past, outcome_readNatural s]
  by_cases hn : n = bigNatural
  · subst hn
    rfl
  by_cases hn' : n = bigNegative
  · subst hn'
    rfl
  simp only [hn, hn', ne_eq, not_false_eq_true, decide_true, Bool.and_self, if_true, if_false]

theorem readNatural_gives_error (h : Leads w P) (hP : ∀ head, P head → (∀ n, head ≠ .natural n) ∧ ∀ n, head ≠ .tag n) :
    readNatural.Gives w (.error .malformed) := by
  intro rest
  obtain ⟨head, s, hread, hp⟩ := h rest
  obtain ⟨hn, ht⟩ := hP head hp
  rw [outcome_readNatural, Head.outcome_past_of_read _ hread ht]
  cases head with
  | natural n => exact absurd rfl (hn n)
  | tag n => exact absurd rfl (ht n)
  | _ => rfl

theorem readBigOctets_gives_error (h : Leads w P) (hP : ∀ head, P head → ∀ length, head ≠ .octets length) :
    readBigOctets.Gives w (.error .malformed) := by
  intro rest
  obtain ⟨head, s, hread, hp⟩ := h rest
  obtain ⟨r, hr, -⟩ := exists_rest_of_outcome hread
  simp only [readBigOctets, hr]
  cases head with
  | octets length => exact absurd rfl (hP _ hp length)
  | _ => rfl

/-- What an integer is read as in place of a number. -/
def natural? : Int → Except Fault Nat
  | .ofNat n => .ok n
  | .negSucc _ => .error .malformed

/-- **Integers are read as numbers** unless they are negative. -/
theorem Integer.readNatural_gives {i : Int} (h : Integer i w) : readNatural.Gives w (natural? i) := by
  cases h with
  | natural hw =>
    intro rest
    rw [outcome_readNatural, Head.outcome_past_of_read _ (hw.outcome_read rfl rest) (fun _ h => by cases h)]
    rfl
  | negative hw => exact readNatural_gives_error (hw.leads rfl) (by rintro _ rfl; simp)
  | @bigNatural t h o ht hh ho =>
    intro rest
    rw [List.append_assoc, List.append_assoc, outcome_readNatural_tag ht, if_pos rfl, ← List.append_assoc]
    exact readBigOctets_gives_whole hh ho rest
  | bigNegative ht =>
    intro rest
    rw [List.append_assoc, List.append_assoc, outcome_readNatural_tag ht]
    rfl

/-- An integer is the head of a number, or starts with a tag. -/
theorem Integer.leads {i : Int} (h : Integer i w) :
    Leads w fun head => ∃ n, head = .natural n ∨ head = .negative n ∨ head = .tag n := by
  cases h with
  | natural hw => exact fun rest => ⟨_, _, hw.outcome_read rfl rest, _, .inl rfl⟩
  | negative hw => exact fun rest => ⟨_, _, hw.outcome_read rfl rest, _, .inr (.inl rfl)⟩
  | @bigNatural t h o ht =>
    exact Leads.append (Leads.append (fun rest => ⟨_, _, ht.outcome_read rfl rest, _, .inr (.inr rfl)⟩) h) o
  | @bigNegative t h o ht =>
    exact Leads.append (Leads.append (fun rest => ⟨_, _, ht.outcome_read rfl rest, _, .inr (.inr rfl)⟩) h) o

/-- The octet string of a big number is read from an item, or refused. -/
theorem Item.exists_readBigOctets_gives {depth : Nat} (h : Item depth w) : ∃ x, readBigOctets.Gives w x := by
  induction h using Item.induction_on_head with
  | integer hw => exact ⟨_, readBigOctets_gives_error hw.leads (by rintro _ ⟨n, rfl | rfl | rfl⟩ <;> simp)⟩
  | octets hw => exact ⟨_, readBigOctets_gives hw⟩
  | text hw => exact ⟨_, readBigOctets_gives_error hw.leads (by rintro _ ⟨l, rfl⟩; simp [StringKind.head])⟩
  | other _ hw => exact ⟨_, readBigOctets_gives_error hw (by rintro _ h l rfl; cases h)⟩
  | tagged ht => exact ⟨_, readBigOctets_gives_error ((ht.leads rfl).append _) (by rintro _ rfl; simp)⟩

/-- **A number is read from an item, or refused**, whatever comes behind it. -/
theorem Item.exists_readNatural_gives {depth : Nat} (h : Item depth w) : ∃ x, readNatural.Gives w x := by
  induction h using Item.induction_on_head with
  | integer hw => exact ⟨_, hw.readNatural_gives⟩
  | octets hw => exact ⟨_, readNatural_gives_error hw.leads (by rintro _ ⟨l, rfl⟩; simp [StringKind.head])⟩
  | text hw => exact ⟨_, readNatural_gives_error hw.leads (by rintro _ ⟨l, rfl⟩; simp [StringKind.head])⟩
  | other _ hw =>
    refine ⟨_, readNatural_gives_error hw fun head h => ⟨?_, ?_⟩⟩
    · rintro n rfl
      cases h
    · rintro n rfl
      cases h
  | @tagged d n t w ht hw _ ih =>
    obtain ⟨x, hx⟩ := ih
    obtain ⟨y, hy⟩ := hw.exists_readBigOctets_gives
    refine ⟨if n = bigNatural then y else if n = bigNegative then .error .malformed else x, fun rest => ?_⟩
    rw [List.append_assoc, outcome_readNatural_tag ht, hx rest, hy rest]
    split
    · rfl
    · split <;> rfl

/-- Behind its tags, the octets start with the head of a text, which is read as `t`. -/
def IsText (w : Octets) (t : String) : Prop :=
  ∀ rest, ∃ length s, outcome (Head.untagged (w ++ rest)) = .ok (.text length, s) ∧
    ∀ {u : Octets} (r : Rest u), r.1 = s → outcome (textAfter length r) = .ok (t, rest)

/-- Behind their tags, the octets start with a head that is of no text. -/
def IsNoText (w : Octets) : Prop :=
  ∀ rest, ∃ head s, outcome (Head.untagged (w ++ rest)) = .ok (head, s) ∧ ∀ length, head ≠ .text length

theorem isNoText_of_leads (h : Leads w P) (hP : ∀ head, P head → (∀ n, head ≠ .tag n) ∧ ∀ length, head ≠ .text length) :
    IsNoText w := by
  intro rest
  obtain ⟨head, s, hread, hp⟩ := h rest
  exact ⟨head, s, Head.outcome_past_of_read _ hread (hP head hp).1, (hP head hp).2⟩

theorem Head.Spelled.outcome_untagged {n : Nat} {t : Octets} (ht : Head.Spelled 6 n t) (w rest : Octets) :
    outcome (Head.untagged (t ++ w ++ rest)) = outcome (Head.untagged (w ++ rest)) := by
  rw [List.append_assoc]
  exact ht.outcome_past (fun _ => true) (w ++ rest)

theorem IsNoText.tagged {n : Nat} {t : Octets} (h : IsNoText w) (ht : Head.Spelled 6 n t) : IsNoText (t ++ w) := by
  intro rest
  rw [ht.outcome_untagged]
  exact h rest

theorem IsText.tagged {n : Nat} {t : Octets} {v : String} (h : IsText w v) (ht : Head.Spelled 6 n t) :
    IsText (t ++ w) v := by
  intro rest
  rw [ht.outcome_untagged]
  exact h rest

theorem Chunked.isText {ts : List String} (h : Chunked .text (ts.map Octets.ofText) w) : IsText w (String.join ts) := by
  intro rest
  obtain ⟨length, s, hread, ht⟩ := h.exists_textAfter rest
  exact ⟨length, s, Head.outcome_past_of_read _ hread (fun _ h => by cases h), fun r => ht r⟩

theorem IsText.readText_gives {t : String} (h : IsText w t) : readText.Gives w (.ok t) := by
  intro rest
  obtain ⟨length, s, hhead, htext⟩ := h rest
  obtain ⟨r, hr, hs⟩ := exists_rest_of_outcome hhead
  simp only [readText, hr]
  exact htext r hs

theorem IsNoText.readText_gives (h : IsNoText w) : readText.Gives w (.error .malformed) := by
  intro rest
  obtain ⟨head, s, hhead, hne⟩ := h rest
  obtain ⟨r, hr, -⟩ := exists_rest_of_outcome hhead
  simp only [readText, hr]
  cases head with
  | text length => exact absurd rfl (hne length)
  | _ => rfl

/-- A string of octets is no text. -/
theorem isNoText_octets {n : Nat} {o : Octets} (h : Head.Spelled 2 n w) : IsNoText (w ++ o) :=
  isNoText_of_leads ((h.leads rfl).append o) (by rintro _ rfl; simp)

theorem Integer.isNoText {i : Int} (h : Integer i w) : IsNoText w := by
  cases h with
  | natural hw => exact isNoText_of_leads (hw.leads rfl) (by rintro _ rfl; simp)
  | negative hw => exact isNoText_of_leads (hw.leads rfl) (by rintro _ rfl; simp)
  | bigNatural ht hh =>
    rw [List.append_assoc]
    exact (isNoText_octets hh).tagged ht
  | bigNegative ht hh =>
    rw [List.append_assoc]
    exact (isNoText_octets hh).tagged ht

/-- An item behind its tags is a text, or something else. -/
theorem Item.isText_or_isNoText {depth : Nat} (h : Item depth w) : (∃ t, IsText w t) ∨ IsNoText w := by
  induction h using Item.induction_on_head with
  | integer hw => exact .inr hw.isNoText
  | octets hw => exact .inr (isNoText_of_leads hw.leads (by rintro _ ⟨l, rfl⟩; simp [StringKind.head]))
  | text hw => exact .inl ⟨_, hw.isText⟩
  | other _ hw =>
    refine .inr (isNoText_of_leads hw fun head h => ⟨?_, ?_⟩)
    · rintro n rfl
      cases h
    · rintro l rfl
      cases h
  | tagged ht _ _ ih =>
    rcases ih with ⟨t, h⟩ | h
    · exact .inl ⟨t, h.tagged ht⟩
    · exact .inr (h.tagged ht)

/-- **A text is read from an item, or refused**, whatever comes behind it. -/
theorem Item.exists_readText_gives {depth : Nat} (h : Item depth w) : ∃ x, readText.Gives w x := by
  rcases h.isText_or_isNoText with ⟨t, h⟩ | h
  · exact ⟨_, h.readText_gives⟩
  · exact ⟨_, h.readText_gives⟩

end Reading

end CoinRelay.Cbor
