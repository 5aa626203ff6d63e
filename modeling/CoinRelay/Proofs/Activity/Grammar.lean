import CoinRelay.Activity.Command
import Mathlib.Data.List.DropRight
import Mathlib.Data.String.Basic

/-!
# The grammar of console lines

A line is settled by its first colon. Without one it is `exit` or nothing (`Command.parse_of_no_colon`); with one it is
a message, if anything but blanks is before the colon (`Command.parse_of_colon`). What a message may be follows
(`Command.Writable`), and that every such message is read back from the line that is written for it.

- `Text.trim_append`, `Text.exists_trim`: trimming drops the blanks at both ends, and nothing else;
- `Command.parse_eq_exit_iff`, `Command.parse_eq_ignored_iff`, `Command.writable_of_parse`: the three kinds of lines;
- `Command.parse_line`: messages are read back.
-/

namespace CoinRelay

/-! ## Ends of texts -/

namespace Text

variable {p : Char → Bool} {c : Char} {cs run left right before : List Char}

/-- A run at the end is dropped. -/
theorem dropEndWhile_append (h : ∀ c ∈ run, p c) (cs : List Char) : dropEndWhile p (cs ++ run) = dropEndWhile p cs := by
  have hrun : ∀ c ∈ run.reverse, p c := fun c hc => h c (List.mem_reverse.1 hc)
  rw [dropEndWhile, List.reverse_append, List.dropWhile_append_of_pos hrun]
  rfl

/-- Nothing is dropped before a character that stays. -/
theorem dropEndWhile_append_cons (h : p c = false) (before cs : List Char) :
    dropEndWhile p (before ++ c :: cs) = before ++ c :: dropEndWhile p cs := by
  have hstay : (c :: before.reverse).dropWhile p = c :: before.reverse := List.dropWhile_cons_of_neg (by simp [h])
  rw [dropEndWhile, dropEndWhile, List.reverse_append, List.reverse_cons, List.append_assoc, List.singleton_append,
    List.dropWhile_append]
  split
  · next hempty => simp only [hstay, List.isEmpty_iff.1 hempty, List.reverse_cons, List.reverse_reverse, List.reverse_nil]
  · simp only [List.reverse_append, List.reverse_cons, List.reverse_reverse, List.append_assoc, List.singleton_append]

/-- What is left ends in no such character. -/
theorem getLast?_dropEndWhile (h : c ∈ (dropEndWhile p cs).getLast?) : p c = false := by
  obtain ⟨hne, rfl⟩ := List.mem_getLast?_eq_getLast h
  exact Bool.eq_false_iff.2 (List.rdropWhile_last_not p cs hne)

/-- A text that ends in no such character stays. -/
theorem dropEndWhile_eq_self (h : ∀ c ∈ cs.getLast?, p c = false) : dropEndWhile p cs = cs := by
  refine List.rdropWhile_eq_self_iff.2 fun hne hlast => ?_
  rw [h _ (List.getLast?_eq_some_getLast hne)] at hlast
  cases hlast

/-- **Blanks at both ends** make no difference. -/
theorem trim_append (hleft : ∀ c ∈ left, isBlank c) (hright : ∀ c ∈ right, isBlank c) (cs : List Char) :
    trim (left ++ cs ++ right) = trim cs := by
  rw [trim, trim, List.append_assoc, List.dropWhile_append_of_pos hleft, List.dropWhile_append]
  split
  · next hempty =>
    rw [List.isEmpty_iff.1 hempty, List.dropWhile_eq_nil_iff.2 hright]
  · exact dropEndWhile_append hright _

/-- **Trimming** drops blanks only. -/
theorem exists_trim (cs : List Char) :
    ∃ left right, cs = left ++ trim cs ++ right ∧ (∀ c ∈ left, isBlank c) ∧ ∀ c ∈ right, isBlank c := by
  have hright : trim cs ++ (cs.dropWhile isBlank).rtakeWhile isBlank = cs.dropWhile isBlank :=
    List.rdropWhile_append_rtakeWhile
  refine ⟨cs.takeWhile isBlank, (cs.dropWhile isBlank).rtakeWhile isBlank, ?_, fun c hc => ?_, fun c hc => ?_⟩
  · rw [List.append_assoc, hright, List.takeWhile_append_dropWhile]
  · exact List.mem_takeWhile_imp hc
  · exact List.mem_rtakeWhile_imp hc

/-- What is trimmed is trimmed for good. -/
theorem trim_trim (cs : List Char) : trim (trim cs) = trim cs := by
  obtain ⟨left, right, hsplit, hleft, hright⟩ := exists_trim cs
  calc trim (trim cs) = trim (left ++ trim cs ++ right) := (trim_append hleft hright _).symm
    _ = trim cs := by rw [← hsplit]

theorem trim_eq_nil_iff : trim cs = [] ↔ ∀ c ∈ cs, isBlank c := by
  constructor
  · intro h
    obtain ⟨left, right, hsplit, hleft, hright⟩ := exists_trim cs
    rw [hsplit, h, List.append_nil]
    exact List.forall_mem_append.2 ⟨hleft, hright⟩
  · intro h
    have htrim := trim_append h (List.forall_mem_nil _) []
    rw [List.append_nil, List.append_nil] at htrim
    exact htrim

/-- All but blanks survives trimming. -/
theorem mem_trim_iff (h : isBlank c = false) : c ∈ trim cs ↔ c ∈ cs := by
  obtain ⟨left, right, hsplit, hleft, hright⟩ := exists_trim cs
  have hnot : ∀ run : List Char, (∀ c ∈ run, isBlank c) → c ∉ run := by
    intro run hrun hc
    rw [hrun c hc] at h
    cases h
  conv_rhs => rw [hsplit]
  rw [List.mem_append, List.mem_append, or_iff_left (hnot right hright), or_iff_right (hnot left hleft)]

end Text

namespace Command

open Text

variable {line recipient text : String} {cs before after : List Char}

/-! ## Colons -/

/-- The ends of lines are blanks. -/
theorem isBlank_of_isLineEnd {c : Char} (h : isLineEnd c) : isBlank c := by
  simp only [isLineEnd, Bool.or_eq_true, decide_eq_true_eq] at h
  rcases h with rfl | rfl <;> decide

theorem splitColon?_of_not_mem (h : ':' ∉ cs) : splitColon? cs = none := by
  have hall : ∀ c ∈ cs, decide (c ≠ ':') = true := fun c hc => decide_eq_true fun heq => h (heq ▸ hc)
  rw [splitColon?, List.dropWhile_eq_nil_iff.2 hall]

theorem splitColon?_append (h : ':' ∉ before) (after : List Char) :
    splitColon? (before ++ ':' :: after) = some (before, after) := by
  have hall : ∀ c ∈ before, decide (c ≠ ':') = true := fun c hc => decide_eq_true fun heq => h (heq ▸ hc)
  rw [splitColon?, List.dropWhile_append_of_pos hall, List.takeWhile_append_of_pos hall]
  simp

/-- The ends of the line make no difference to whether it is `exit`. -/
theorem trim_dropEndWhile (cs : List Char) : trim (dropEndWhile isLineEnd cs) = trim cs := by
  have hends : ∀ c ∈ cs.rtakeWhile isLineEnd, isBlank c := fun c hc => isBlank_of_isLineEnd (List.mem_rtakeWhile_imp hc)
  have hsplit : dropEndWhile isLineEnd cs ++ cs.rtakeWhile isLineEnd = cs := List.rdropWhile_append_rtakeWhile
  have htrim := trim_append (List.forall_mem_nil _) hends (dropEndWhile isLineEnd cs)
  rw [List.nil_append, hsplit] at htrim
  exact htrim.symm

/-- A line with a colon is not `exit`. -/
theorem trim_ne_exit (h : ':' ∈ line.toList) : trim line.toList ≠ "exit".toList := by
  intro heq
  have hcolon : ':' ∈ trim line.toList := (mem_trim_iff (by decide)).2 h
  rw [heq] at hcolon
  exact absurd hcolon (by decide)

/-- **A line without a colon** is `exit` or nothing. -/
theorem parse_of_no_colon (h : ':' ∉ line.toList) :
    parse line = if trim line.toList = "exit".toList then exit else ignored := by
  have hsub : dropEndWhile isLineEnd line.toList ⊆ line.toList := (List.rdropWhile_prefix _ _).subset
  simp only [parse, trim_dropEndWhile, splitColon?_of_not_mem fun hc => h (hsub hc)]

/-- **A line with a colon** is a message, unless there are only blanks before the first one. -/
theorem parse_of_colon (h : ':' ∉ before) (hline : line.toList = before ++ ':' :: after) :
    parse line = if (trim before).isEmpty then ignored
      else send (String.ofList (trim before)) (String.ofList (dropSpace (dropEndWhile isLineEnd after))) := by
  have hexit : trim line.toList ≠ "exit".toList := by
    refine trim_ne_exit ?_
    rw [hline]
    exact List.mem_append_right _ List.mem_cons_self
  have hbody : dropEndWhile isLineEnd line.toList = before ++ ':' :: dropEndWhile isLineEnd after := by
    rw [hline, dropEndWhile_append_cons (by decide)]
  simp only [parse, trim_dropEndWhile, if_neg hexit]
  simp only [hbody, splitColon?_append h]

/-- Every line has no colon or a first one. -/
theorem no_colon_or_first (line : String) :
    ':' ∉ line.toList ∨ ∃ before after, line.toList = before ++ ':' :: after ∧ ':' ∉ before := by
  by_cases h : ':' ∈ line.toList
  · exact .inr (List.eq_append_cons_of_mem h)
  · exact .inl h

/-! ## The kinds of lines -/

/-- **The line to leave with.** -/
theorem parse_eq_exit_iff : parse line = exit ↔ trim line.toList = "exit".toList := by
  rcases no_colon_or_first line with h | ⟨before, after, hline, h⟩
  · rw [parse_of_no_colon h]
    split
    · next hexit => exact iff_of_true rfl hexit
    · next hexit => exact iff_of_false nofun hexit
  · have hexit : trim line.toList ≠ "exit".toList := trim_ne_exit (by simp [hline])
    rw [parse_of_colon h hline]
    split
    · exact iff_of_false nofun hexit
    · exact iff_of_false nofun hexit

/-- **Lines of no note** say nothing before a colon, or have none. -/
theorem parse_eq_ignored_iff : parse line = ignored ↔
    parse line ≠ exit ∧ (':' ∉ line.toList ∨
      ∃ before after, line.toList = before ++ ':' :: after ∧ ∀ c ∈ before, isBlank c) := by
  constructor
  · intro hparse
    refine ⟨by rw [hparse]; exact nofun, ?_⟩
    rcases no_colon_or_first line with h | ⟨before, after, hline, h⟩
    · exact .inl h
    · rw [parse_of_colon h hline] at hparse
      split at hparse
      · next hblank => exact .inr ⟨before, after, hline, trim_eq_nil_iff.1 (List.isEmpty_iff.1 hblank)⟩
      · cases hparse
  · rintro ⟨hexit, h | ⟨before, after, hline, hblank⟩⟩
    · rw [parse_of_no_colon h, if_neg (mt parse_eq_exit_iff.2 hexit)]
    · have h : ':' ∉ before := fun hc => absurd (hblank ':' hc) (by decide)
      rw [parse_of_colon h hline, if_pos (List.isEmpty_iff.2 (trim_eq_nil_iff.2 hblank))]

/-- A message that can be written on a line. -/
structure Writable (recipient text : String) : Prop where
  recipient_ne : recipient ≠ ""
  trimmed : trim recipient.toList = recipient.toList
  no_colon : ':' ∉ recipient.toList
  no_end : ∀ c ∈ text.toList.getLast?, isLineEnd c = false

/-- The last character stays when a space is dropped. -/
theorem mem_getLast?_dropSpace {c : Char} (h : c ∈ (dropSpace cs).getLast?) : c ∈ cs.getLast? := by
  unfold dropSpace at h
  split at h
  · rw [List.getLast?_cons, Option.mem_def.1 h]
    rfl
  · exact h

/-- **What is sent** can be written on a line. -/
theorem writable_of_parse (hparse : parse line = send recipient text) : Writable recipient text := by
  rcases no_colon_or_first line with h | ⟨before, after, hline, h⟩
  · rw [parse_of_no_colon h] at hparse
    split at hparse <;> cases hparse
  · rw [parse_of_colon h hline] at hparse
    split at hparse
    · cases hparse
    · next hsome =>
      cases hparse
      constructor
      · rw [ne_eq, String.ofList_eq_empty_iff, ← List.isEmpty_iff]
        exact hsome
      · rw [String.toList_ofList, trim_trim]
      · rw [String.toList_ofList, mem_trim_iff (by decide)]
        exact h
      · rw [String.toList_ofList]
        exact fun c hc => getLast?_dropEndWhile (mem_getLast?_dropSpace hc)

/-- **A message is read back** from the line that is written for it, whatever ends the line. -/
theorem parse_line (h : Writable recipient text) {ends : String} (hends : ∀ c ∈ ends.toList, isLineEnd c) :
    parse (recipient ++ ": " ++ text ++ ends) = send recipient text := by
  have hline : (recipient ++ ": " ++ text ++ ends).toList =
      recipient.toList ++ ':' :: (' ' :: text.toList ++ ends.toList) := by
    simp
  have hsome : ¬(trim recipient.toList).isEmpty := by
    rw [h.trimmed, List.isEmpty_iff, String.toList_eq_nil_iff]
    exact h.recipient_ne
  have hspace : dropEndWhile isLineEnd (' ' :: text.toList) = ' ' :: dropEndWhile isLineEnd text.toList :=
    dropEndWhile_append_cons (by decide) [] text.toList
  rw [parse_of_colon h.no_colon hline, if_neg hsome, h.trimmed, dropEndWhile_append hends, hspace,
    dropEndWhile_eq_self h.no_end, dropSpace, String.ofList_toList, String.ofList_toList]

/-- **The grammar of console lines.** Every message that can be written on a line is read back from it, whatever run of
line ends follows. What is sent is such a message, so it is read again from the line that is written for it. A line is
left with just if it is `exit` but for blanks, and ignored just if it is not and has no colon or only blanks before its
first one. -/
theorem parse_round_trip :
    (∀ recipient text ends : String, Writable recipient text → (∀ c ∈ ends.toList, isLineEnd c) →
      parse (recipient ++ ": " ++ text ++ ends) = send recipient text) ∧
      (∀ line recipient text, parse line = send recipient text →
        Writable recipient text ∧ parse (recipient ++ ": " ++ text) = send recipient text) ∧
      (∀ line, parse line = exit ↔ trim line.toList = "exit".toList) ∧
      ∀ line, parse line = ignored ↔ parse line ≠ exit ∧ (':' ∉ line.toList ∨
        ∃ before after, line.toList = before ++ ':' :: after ∧ ∀ c ∈ before, isBlank c) := by
  refine ⟨fun recipient text ends h hends => ?_, fun line recipient text hparse => ?_, fun line => ?_, fun line => ?_⟩
  · exact parse_line h hends
  · have h := writable_of_parse hparse
    have hnone : ∀ c ∈ "".toList, isLineEnd c := List.all_eq_true.1 rfl
    have hagain := parse_line h hnone
    rw [String.append_empty] at hagain
    exact ⟨h, hagain⟩
  · exact parse_eq_exit_iff
  · exact parse_eq_ignored_iff

theorem parse_round_trip_appointment :
    parse ("exit" ++ ": " ++ " 10:30\n at noon " ++ "\r\n\n") = send "exit" " 10:30\n at noon " ∧
      parse "\tbob :hi\r" = send "bob" "hi" ∧ Writable "bob" "hi" ∧ parse ("bob" ++ ": " ++ "hi") = send "bob" "hi" := by
  obtain ⟨hwrite, hread, -⟩ := parse_round_trip
  have hlast : " 10:30\n at noon ".toList.getLast? = some ' ' := by decide
  have hexit : Writable "exit" " 10:30\n at noon " := by
    refine ⟨by decide, by decide, by decide, fun c hc => ?_⟩
    rw [hlast] at hc
    cases hc
    rfl
  have hends : ∀ c ∈ "\r\n\n".toList, isLineEnd c := List.all_eq_true.1 rfl
  have hbob : parse "\tbob :hi\r" = send "bob" "hi" := by decide
  exact ⟨hwrite _ _ _ hexit hends, hbob, hread _ _ _ hbob⟩

end Command

end CoinRelay
