import CoinRelay.Activity.Console
import CoinRelay.Proofs.Octets
import Mathlib.Data.List.Basic

/-!
# Lines read from the console

Texts without line feeds, each with one behind it, are read as the lines that they are, whatever is typed after them. It
makes no difference in which pieces they are typed.

- `Console.lines`: the octets of lines;
- `readable`, `read_of_open`: the lines that are read out of segments;
- `segments_append`: what is typed continues the last segment of what was typed before;
- `read_lines`, `read_append`: reading goes on behind lines, and behind what was read before.
-/

namespace CoinRelay.Console

variable {c : Console} {texts : List String}

/-- The octets of lines, each with a line feed behind it. -/
def lines (texts : List String) : Octets := texts.flatMap fun text => Octets.ofText text ++ [lineFeed]

/-- A text that can be a line. -/
def IsLine (text : String) : Prop := lineFeed ∉ Octets.ofText text

instance (text : String) : Decidable (IsLine text) := inferInstanceAs (Decidable (_ ∉ _))

/-! ## Segments -/

theorem segments_eq (o : Octets) : segments o = o.splitOn lineFeed := by
  induction o with
  | nil => rfl
  | cons b o ih =>
    rw [List.splitOn, List.splitOnP_cons_eq_if_modifyHead, ← List.splitOn, ← ih, segments, List.foldr_cons, ← segments]
    cases hsegments : segments o with
    | nil => exact absurd (ih.symm.trans hsegments) (List.splitOn_ne_nil _ _)
    | cons segment others => simp only [beq_iff_eq, List.modifyHead_cons]

theorem segments_ne_nil (o : Octets) : segments o ≠ [] := by
  rw [segments_eq]
  exact List.splitOn_ne_nil _ _

/-- A segment with a line feed behind it stands at the front. -/
theorem segments_cons {segment : Octets} (h : lineFeed ∉ segment) (rest : Octets) :
    segments (segment ++ lineFeed :: rest) = segment :: segments rest := by
  rw [segments_eq, segments_eq, List.splitOn_append_cons_self_of_not_mem h]

theorem segments_of_not_mem {o : Octets} (h : lineFeed ∉ o) : segments o = [o] := by
  rw [segments_eq, List.splitOn_eq_singleton h]

theorem segments_lines (h : ∀ text ∈ texts, IsLine text) (rest : Octets) :
    segments (lines texts ++ rest) = texts.map Octets.ofText ++ segments rest := by
  induction texts with
  | nil => rfl
  | cons text texts ih =>
    have hrest := ih fun other hother => h other (List.mem_cons_of_mem _ hother)
    have htext := h text List.mem_cons_self
    rw [lines, List.flatMap_cons, ← lines, List.append_assoc, List.append_assoc, List.singleton_append,
      segments_cons htext, hrest, List.map_cons, List.cons_append]

theorem segments_octet (b : UInt8) (o : Octets) :
    segments (b :: o) = if b = lineFeed then [] :: segments o else (segments o).modifyHead (b :: ·) := by
  rw [segments_eq, segments_eq, List.splitOn, List.splitOnP_cons_eq_if_modifyHead]
  simp only [beq_iff_eq, List.splitOn]

/-- Some segments may be complete, and the last is not. -/
theorem exists_segments (o : Octets) : ∃ whole last, segments o = whole ++ [last] :=
  ⟨_, _, (List.dropLast_append_getLast (segments_ne_nil o)).symm⟩

/-- **What is typed** continues the last segment of what was typed before. -/
theorem segments_append {o : Octets} {whole : List Octets} {last : Octets} (h : segments o = whole ++ [last])
    (more : Octets) : segments (o ++ more) = whole ++ segments (last ++ more) := by
  induction o generalizing whole last with
  | nil =>
    obtain ⟨rfl, rfl⟩ : whole = [] ∧ last = [] := by
      cases whole with
      | nil => exact ⟨rfl, (List.cons.inj h).1.symm⟩
      | cons first others => exact absurd (List.cons.inj h).2.symm (by simp)
    rfl
  | cons b o ih =>
    obtain ⟨before, unfinished, hbefore⟩ := exists_segments o
    have hrest := ih hbefore
    rw [segments_octet, hbefore] at h
    rw [List.cons_append, segments_octet, hrest]
    split at h
    · next hfeed =>
      have hsame : ([] :: before) ++ [unfinished] = whole ++ [last] := h
      obtain ⟨rfl, hlast⟩ := List.append_inj' hsame rfl
      cases hlast
      rw [if_pos hfeed]
      rfl
    · next hfeed =>
      rw [if_neg hfeed]
      cases before with
      | nil =>
        have hsame : [] ++ [b :: unfinished] = whole ++ [last] := h
        obtain ⟨rfl, hlast⟩ := List.append_inj' hsame rfl
        cases hlast
        rw [List.nil_append, List.nil_append, List.cons_append, segments_octet, if_neg hfeed]
      | cons first others =>
        have hsame : ((b :: first) :: others) ++ [unfinished] = whole ++ [last] := h
        obtain ⟨rfl, hlast⟩ := List.append_inj' hsame rfl
        cases hlast
        rfl

/-! ## Readable segments -/

/-- The texts that segments spell, up to the first that is not UTF-8. -/
def readable (segments : List Octets) : List String :=
  ((segments.map Octets.text?).takeWhile Option.isSome).filterMap id

theorem readable_cons_of_some {segment : Octets} {text : String} (h : segment.text? = some text)
    (others : List Octets) : readable (segment :: others) = text :: readable others := by
  simp [readable, h]

theorem readable_cons_of_none {segment : Octets} (h : segment.text? = none) (others : List Octets) :
    readable (segment :: others) = [] := by
  simp [readable, h]

theorem readable_ofText (texts : List String) (others : List Octets) :
    readable (texts.map Octets.ofText ++ others) = texts ++ readable others := by
  induction texts with
  | nil => rfl
  | cons text texts ih =>
    rw [List.map_cons, List.cons_append, readable_cons_of_some (Octets.text?_ofText text), ih, List.cons_append]

theorem length_readable_le (segments : List Octets) : (readable segments).length ≤ segments.length := by
  induction segments with
  | nil => rfl
  | cons segment others ih =>
    cases htext : segment.text? with
    | none =>
      rw [readable_cons_of_none htext]
      exact Nat.zero_le _
    | some text =>
      rw [readable_cons_of_some htext]
      exact Nat.succ_le_succ ih

/-- Segments behind others are read if all of those are. -/
theorem readable_append (front back : List Octets) :
    readable (front ++ back) =
      if (readable front).length < front.length then readable front else readable front ++ readable back := by
  induction front with
  | nil => rfl
  | cons segment others ih =>
    rw [List.cons_append]
    cases htext : segment.text? with
    | none =>
      rw [readable_cons_of_none htext, readable_cons_of_none htext]
      rfl
    | some text =>
      rw [readable_cons_of_some htext, readable_cons_of_some htext, ih, List.length_cons, List.length_cons]
      simp only [Nat.add_lt_add_iff_right]
      split <;> rfl

/-! ## Reading -/

theorem read_eq (c : Console) :
    c.read = (readable c.cut.1, c.ended || decide ((readable c.cut.1).length < c.cut.1.length),
      { c with typed := c.cut.2 }) := rfl

theorem cut_of_segments {whole : List Octets} {last : Octets} (h : segments c.typed = whole ++ [last]) :
    c.cut = if c.ended && !last.isEmpty then (whole ++ [last], []) else (whole, last) := by
  simp only [cut, h, List.getLast?_concat, Option.getD_some, List.dropLast_concat]

/-- **Lines are read** one after the other, and then whatever is typed behind them. -/
theorem read_lines (h : ∀ text ∈ texts, IsLine text) (rest : Octets) (ended : Bool) :
    read ⟨lines texts ++ rest, ended⟩ = (texts ++ (read ⟨rest, ended⟩).1, (read ⟨rest, ended⟩).2) := by
  have hcut : cut ⟨lines texts ++ rest, ended⟩ =
      (texts.map Octets.ofText ++ (cut ⟨rest, ended⟩).1, (cut ⟨rest, ended⟩).2) := by
    obtain ⟨whole, last, hrest⟩ := exists_segments rest
    have hall : segments (lines texts ++ rest) = (texts.map Octets.ofText ++ whole) ++ [last] := by
      rw [segments_lines h, hrest, List.append_assoc]
    rw [cut_of_segments hall, cut_of_segments hrest]
    split <;> simp
  rw [read_eq, read_eq, hcut]
  simp only [readable_ofText, List.length_append, List.length_map, Nat.add_lt_add_iff_left]

/-- While more can come, the last segment waits for it. -/
theorem read_of_open (h : c.ended = false) {whole : List Octets} {last : Octets}
    (hsegments : segments c.typed = whole ++ [last]) :
    c.read = (readable whole, decide ((readable whole).length < whole.length), { c with typed := last }) := by
  have hcut : c.cut = (whole, last) := by
    rw [cut_of_segments hsegments, h]
    rfl
  rw [read_eq, hcut, h, Bool.false_or]

theorem read_unfinished {o : Octets} (h : lineFeed ∉ o) : read ⟨o, false⟩ = ([], false, ⟨o, false⟩) := by
  have hsegments : segments (typed ⟨o, false⟩) = [] ++ [o] := segments_of_not_mem h
  exact read_of_open rfl hsegments

/-- **What was typed in two pieces** is read as in one. -/
theorem read_append (h : c.ended = false) (more : Octets) :
    let later := (c.read.2.2.type more).read
    (c.type more).read.1 = (if c.read.2.1 then c.read.1 else c.read.1 ++ later.1) ∧
      (c.type more).read.2 = (c.read.2.1 || later.2.1, later.2.2) := by
  obtain ⟨whole, last, hold⟩ := exists_segments c.typed
  obtain ⟨back, next, hnew⟩ := exists_segments (last ++ more)
  have htype : ∀ o, type more { c with typed := o } = { c with typed := o ++ more } := by
    intro o
    simp only [type, h, Bool.false_eq_true, if_false]
  have hboth : segments (c.typed ++ more) = (whole ++ back) ++ [next] := by
    rw [segments_append hold, hnew, List.append_assoc]
  have hread := read_of_open (c := { c with typed := c.typed ++ more }) h hboth
  have hlater := read_of_open (c := { c with typed := last ++ more }) h hnew
  have hle := length_readable_le whole
  rw [show c.type more = { c with typed := c.typed ++ more } from htype c.typed, hread, read_of_open h hold]
  simp only [htype, hlater, readable_append, decide_eq_true_eq]
  split
  · next hlt =>
    have hshort : (readable whole).length < whole.length + back.length := by omega
    simp [hlt, hshort]
  · next hlt =>
    have hwhole : (readable whole).length = whole.length := by omega
    simp [hwhole]

end CoinRelay.Console
