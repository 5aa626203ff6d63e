import CoinRelay.Activity.Session
import CoinRelay.Proofs.Activity.Console
import CoinRelay.Proofs.Activity.Lines
import CoinRelay.Proofs.Contact.Collection

/-!
# Sessions and their input

A session acts on what its console reads until a line ends the console, or the input ends. From then on nothing that is
typed has an effect (`run_of_finished`), so that courses of events which differ only behind that line come to the same
(`console_acts_until_exit`).

- `hear`, `left`: a session after its console read lines, and one that ended after messages were posted;
- `attend_eq`: what one reading of the console comes to;
- `Attended`, `Finished`: sessions whose console is read, and sessions that are over; whatever happens, short of a stop,
  one of the first kind stays so or comes to be of the second (`Attended.run`);
- `type_type`, `run_typing`: pieces of input come to what they come to in one;
- `Act`, `run`: what happens to a session, no stop being asked for;
- `Hears`: what becomes of lines, in the middle of everything else.
-/

namespace CoinRelay.Session

open Command (messages Ends)
open Console (IsLine)

variable {σ : Type} {e : Surroundings σ} {s t : Session σ} {texts : List String} {rest : Octets}
  {ended : Bool}

/-! ## One reading -/

/-- A session without what its console has. -/
def mute (s : Session σ) : Session σ := { s with console := {} }

theorem station_eq_of_mute (h : s.mute = t.mute) : s.station = t.station :=
  show s.mute.station = t.mute.station from congrArg station h

/-- The session that ends after messages were posted. -/
def left (e : Surroundings σ) (messages : List (String × String)) (s : Session σ) : Session σ :=
  { s with station := s.station.posted e.link messages }.finish

/-- A session after its console read lines, and after the input is over if it is. -/
def hear (e : Surroundings σ) (texts : List String) (isOver : Bool) (s : Session σ) : Session σ :=
  if Ends texts ∨ isOver = true then s.left e (messages texts)
  else { s with station := s.station.posted e.link (messages texts) }

theorem hear_of_ends (hends : Ends texts) (more : List String) (isOver : Bool) (s : Session σ) :
    s.hear e (texts ++ more) isOver = s.left e (messages texts) := by
  rw [hear, if_pos (.inl (Command.ends_append.2 (.inl hends))), Command.messages_append_of_ends hends]

/-- Lines are heard one after the other. -/
theorem hear_append (hends : ¬Ends texts) (more : List String) (isOver : Bool) (s : Session σ) :
    s.hear e (texts ++ more) isOver =
      { s with station := s.station.posted e.link (messages texts) }.hear e more isOver := by
  simp only [hear, left, Command.ends_append, hends, false_or, Command.messages_append hends, Station.posted_append]

/-- **A reading of the console** is heard. -/
theorem attend_eq (e : Surroundings σ) (s : Session σ) :
    s.attend e = { s with console := s.console.read.2.2 }.hear e s.console.read.1 s.console.read.2.1 := by
  simp only [attend, Station.obeyAll_eq, hear]
  by_cases hends : Ends s.console.read.1
  · rw [if_pos (Or.inl hends), decide_eq_false (not_not_intro hends)]
    rfl
  · rw [decide_eq_true hends]
    cases s.console.read.2.1 <;> simp [hends, left]

theorem mute_attend (e : Surroundings σ) (s : Session σ) :
    (s.attend e).mute = s.mute.hear e s.console.read.1 s.console.read.2.1 := by
  rw [attend_eq]
  unfold hear
  split <;> rfl

/-- **With a line that ends the console** in the input, it does not matter what comes behind it. -/
theorem mute_attend_of_ends (hlines : ∀ text ∈ texts, IsLine text) (hends : Ends texts)
    (hconsole : s.console = ⟨Console.lines texts ++ rest, ended⟩) :
    (s.attend e).mute = s.mute.left e (messages texts) := by
  rw [mute_attend, hconsole, Console.read_lines hlines, hear_of_ends hends]

/-- **At the end of input** a session ends after the lines that are there. -/
theorem mute_attend_of_ended (hlines : ∀ text ∈ texts, IsLine text)
    (hconsole : s.console = ⟨Console.lines texts, true⟩) : (s.attend e).mute = s.mute.left e (messages texts) := by
  have hnone : Console.read ⟨[], true⟩ = ([], true, ⟨[], true⟩) := rfl
  rw [mute_attend, hconsole, ← List.append_nil (Console.lines texts), Console.read_lines hlines, hnone,
    List.append_nil, hear, if_pos (.inr rfl)]

/-- **Otherwise** the session goes on, with the unfinished line. -/
theorem attend_unfinished (hlines : ∀ text ∈ texts, IsLine text) (hends : ¬Ends texts)
    (hrest : Console.lineFeed ∉ rest) (hconsole : s.console = ⟨Console.lines texts ++ rest, false⟩) :
    s.attend e = { s with station := s.station.posted e.link (messages texts), console := ⟨rest, false⟩ } := by
  have hread : s.console.read = (texts, false, ⟨rest, false⟩) := by
    rw [hconsole, Console.read_lines hlines, Console.read_unfinished hrest, List.append_nil]
  rw [attend_eq, hread, hear, if_neg (by simp [hends])]

/-! ## Sessions that are over -/

/-- A session is over and nothing falls due in it. -/
structure Finished (s : Session σ) : Prop where
  phase : s.phase = .over
  maintenanceDue : s.maintenanceDue = none
  listenerDue : s.listenerDue = none

theorem Finished.left (messages : List (String × String)) (s : Session σ) : Finished (s.left e messages) :=
  ⟨rfl, rfl, rfl⟩

theorem type_of_finished (h : Finished s) (o : Octets) : s.type e o = (false, s) := by
  simp [type, acceptsInput, h.phase]

theorem Finished.of_mute (h : s.mute = t) (ht : Finished t) : Finished s :=
  ⟨(congrArg Session.phase h).trans ht.phase, (congrArg Session.maintenanceDue h).trans ht.maintenanceDue,
    (congrArg Session.listenerDue h).trans ht.listenerDue⟩

/-! ## Pieces of input -/

/-- The console of a session is read: the session is running, no stop is asked for and the input has not ended. -/
structure Attended (s : Session σ) : Prop where
  phase : s.phase = .running
  stopped : s.stopped = false
  ended : s.console.ended = false

theorem type_of_attended (h : Attended s) (o : Octets) :
    s.type e o = (true, { s with console := s.console.type o }.attend e) := by
  have haccepts : s.acceptsInput = true := by simp [acceptsInput, h.phase, h.ended]
  simp only [type, haccepts, if_true, settle, h.phase, h.stopped, Bool.false_eq_true, if_false]

theorem type_of_typed (h : Attended s) {o all : Octets} (htyped : s.console.typed ++ o = all) :
    (s.type e o).2 = { s with console := ⟨all, false⟩ }.attend e := by
  rw [type_of_attended h, Console.type, h.ended, htyped, if_neg Bool.false_ne_true, ← h.ended]

theorem Attended.type (h : Attended s) (o : Octets) : Attended (s.type e o).2 ∨ Finished (s.type e o).2 := by
  rw [type_of_attended h, attend_eq, hear]
  split
  · exact .inr (.left _ _)
  · exact .inl ⟨h.phase, h.stopped, by simp [Console.read, Console.type, h.ended]⟩

/-- Two sessions are the same, or finished and the same apart from their consoles. -/
def Alike (s t : Session σ) : Prop := s = t ∨ Finished s ∧ s.mute = t.mute

theorem Alike.mute_eq (h : Alike s t) : s.mute = t.mute := h.elim (congrArg mute) (·.2)

theorem Alike.trans {u : Session σ} (h : Alike s t) (h' : Alike t u) : Alike s u := by
  rcases h with rfl | ⟨hfinished, hmute⟩
  · exact h'
  · exact .inr ⟨hfinished, hmute.trans h'.mute_eq⟩

theorem close_of_attended (h : Attended s) : s.close e = { s with console := ⟨s.console.typed, true⟩ }.attend e := by
  simp only [close, settle, h.phase, h.stopped, Bool.false_eq_true, if_false]

theorem Attended.close (h : Attended s) : Finished (s.close e) := by
  rw [close_of_attended h, attend_eq, hear, if_pos (.inr rfl)]
  exact .left _ _

/-- **What is typed in two pieces** comes to what it comes to in one. -/
theorem type_type (h : Attended s) (o more : Octets) :
    Alike ((s.type e o).2.type e more).2 (s.type e (o ++ more)).2 := by
  have htype : s.console.type (o ++ more) = (s.console.type o).type more := by simp [Console.type, h.ended]
  have hopen : (s.console.type o).ended = false := by simp [Console.type, h.ended]
  obtain ⟨htexts, hrest⟩ := Console.read_append hopen more
  rw [type_of_attended h, type_of_attended h, htype]
  by_cases hstop : Ends (s.console.type o).read.1 ∨ (s.console.type o).read.2.1 = true
  · -- the first piece ends the session, and the second is not accepted
    have hfirst : { s with console := s.console.type o }.attend e =
        { s with console := (s.console.type o).read.2.2 }.left e (messages (s.console.type o).read.1) := by
      rw [attend_eq, hear, if_pos hstop]
    rw [hfirst, type_of_finished (.left _ _)]
    refine .inr ⟨.left _ _, ?_⟩
    simp only [mute_attend, htexts, hrest]
    cases hlast : (s.console.type o).read.2.1 with
    | true =>
      rw [if_pos rfl, Bool.true_or, hear, if_pos (.inr rfl)]
      rfl
    | false =>
      rw [if_neg Bool.false_ne_true, hear_of_ends (hstop.resolve_right (by simp [hlast]))]
      rfl
  · -- the second piece is read by the session that the first one leaves
    obtain ⟨hends, hgoes⟩ := not_or.1 hstop
    have hfirst : { s with console := s.console.type o }.attend e =
        { s with
          station := s.station.posted e.link (messages (s.console.type o).read.1)
          console := (s.console.type o).read.2.2 } := by
      rw [attend_eq, hear, if_neg hstop]
    have hnext : Attended { s with
        station := s.station.posted e.link (messages (s.console.type o).read.1)
        console := (s.console.type o).read.2.2 } := ⟨h.phase, h.stopped, hopen⟩
    rw [if_neg hgoes] at htexts
    rw [Bool.eq_false_of_not_eq_true hgoes, Bool.false_or] at hrest
    rw [hfirst, type_of_attended hnext]
    refine .inl ?_
    simp only [attend_eq, htexts, hrest, hear_append hends]

/-! ## Courses of events -/

/-- What happens to a session, apart from a stop: octets are typed, the input is closed, time passes, and the device or
the other end of the line changes. -/
inductive Act (σ : Type)
  | type (o : Octets)
  | close
  | wait (millis : Nat)
  | device (conditions : Device)
  | line (change : σ → σ)

namespace Act

/-- The session after an act. -/
def after (e : Surroundings σ) (act : Act σ) (s : Session σ) : Session σ :=
  match act with
  | type o => (s.type e o).2
  | close => s.close e
  | wait millis => s.wait e millis
  | device conditions => { s with station := { s.station with device := conditions } }
  | line change => { s with station := { s.station with line := change s.station.line } }

/-- Whether an act is input of the console. -/
def isInput : Act σ → Bool
  | type _ | close => true
  | wait _ | device _ | line _ => false

end Act

/-- The session after acts, one after the other. -/
def run (e : Surroundings σ) (acts : List (Act σ)) (s : Session σ) : Session σ :=
  acts.foldl (fun s act => act.after e s) s

/-- The acts that are no input. -/
def others (acts : List (Act σ)) : List (Act σ) := acts.filter (!·.isInput)

theorem Attended.setTime (h : Attended s) (time : Nat) : Attended (s.setTime e time) := ⟨h.phase, h.stopped, h.ended⟩

theorem Attended.maintain (h : Attended s) : Attended (s.maintain e) := by
  unfold Session.maintain
  split <;> exact ⟨h.phase, h.stopped, h.ended⟩

theorem Attended.listen (h : Attended s) : Attended (s.listen e) := ⟨h.phase, h.stopped, h.ended⟩

theorem Attended.runDue (h : Attended s) (deadline n : Nat) : Attended (s.runDue e deadline n) := by
  induction n generalizing s with
  | zero => exact h
  | succ n ih =>
    unfold Session.runDue
    dsimp only
    split
    · exact h
    · exact ih (h.setTime _).maintain
    · exact ih (h.setTime _).listen
    · split
      · exact ih (h.setTime _).maintain
      · exact ih (h.setTime _).listen

theorem Attended.after (h : Attended s) (act : Act σ) : Attended (act.after e s) ∨ Finished (act.after e s) := by
  cases act with
  | type o => exact h.type o
  | close => exact .inr h.close
  | wait millis => exact .inl ((h.runDue _ _).setTime _)
  | device conditions => exact .inl ⟨h.phase, h.stopped, h.ended⟩
  | line change => exact .inl ⟨h.phase, h.stopped, h.ended⟩

theorem runDue_of_finished (h : Finished s) (deadline n : Nat) : runDue e deadline n s = s := by
  cases n with
  | zero => rfl
  | succ n =>
    unfold runDue
    simp only [h.maintenanceDue, h.listenerDue, Option.filter_none]

/-- A finished session stays so, and input does nothing to it. -/
theorem after_of_finished (h : Finished s) (act : Act σ) :
    Finished (act.after e s) ∧
      (act.after e s).mute = if act.isInput then s.mute else act.after e s.mute := by
  cases act with
  | type o =>
    simp only [Act.after, type_of_finished h]
    exact ⟨h, rfl⟩
  | close =>
    have hclose : s.close e = { s with console := { s.console with ended := true } } := by
      unfold close settle
      split
      · next hphase => cases h.phase.symm.trans hphase
      · rfl
    simp only [Act.after, hclose]
    exact ⟨⟨h.phase, h.maintenanceDue, h.listenerDue⟩, rfl⟩
  | wait millis =>
    have hmute : Finished s.mute := ⟨h.phase, h.maintenanceDue, h.listenerDue⟩
    simp only [Act.after, wait, runDue_of_finished h, runDue_of_finished hmute]
    exact ⟨⟨h.phase, h.maintenanceDue, h.listenerDue⟩, rfl⟩
  | device conditions => exact ⟨⟨h.phase, h.maintenanceDue, h.listenerDue⟩, rfl⟩
  | line change => exact ⟨⟨h.phase, h.maintenanceDue, h.listenerDue⟩, rfl⟩

/-- **Whatever happens** short of a stop, the console of a session is read until the session is over. -/
theorem Attended.run (h : Attended s) (acts : List (Act σ)) : Attended (run e acts s) ∨ Finished (run e acts s) := by
  have hkept : Attended s ∨ Finished s := .inl h
  clear h
  induction acts generalizing s with
  | nil => exact hkept
  | cons act acts ih =>
    rcases hkept with hgoes | hover
    · exact ih (hgoes.after act)
    · exact ih (.inr (after_of_finished hover act).1)

/-- **Input has no effect** on a finished session. -/
theorem run_of_finished (h : Finished s) (acts : List (Act σ)) :
    (run e acts s).mute = run e (others acts) s.mute := by
  induction acts generalizing s with
  | nil => rfl
  | cons act acts ih =>
    obtain ⟨hnext, hmute⟩ := after_of_finished (e := e) h act
    have hrest := ih hnext
    rw [others, List.filter_cons, ← others]
    cases hinput : act.isInput with
    | true =>
      rw [hinput, if_pos rfl] at hmute
      rw [hmute] at hrest
      exact hrest
    | false =>
      rw [hinput, if_neg Bool.false_ne_true] at hmute
      rw [hmute] at hrest
      exact hrest

/-! ## Lines in pieces -/

/-- Types pieces one after the other. -/
def typing (pieces : List Octets) : List (Act σ) := pieces.map .type

theorem run_append (acts more : List (Act σ)) (s : Session σ) : run e (acts ++ more) s = run e more (run e acts s) :=
  List.foldl_append

/-- Once acts have ended a session, input has no effect on it. -/
theorem run_append_of_left {acts : List (Act σ)} {posted : List (String × String)}
    (h : (run e acts s).mute = t.left e posted) (more : List (Act σ)) :
    (run e (acts ++ more) s).mute = run e (others more) (t.left e posted) := by
  have hover : Finished (run e acts s) := .of_mute h (.left _ _)
  rw [run_append, run_of_finished hover, h]

theorem run_typing_of_finished (h : Finished s) (pieces : List Octets) : run e (typing pieces) s = s := by
  induction pieces with
  | nil => rfl
  | cons o pieces ih =>
    rw [typing, List.map_cons, ← typing, run, List.foldl_cons, ← run]
    simp only [Act.after, type_of_finished h]
    exact ih

/-- **Pieces** come to what they come to in one. -/
theorem run_typing (h : Attended s) (o : Octets) (pieces : List Octets) :
    Alike (run e (typing (o :: pieces)) s) (s.type e (o ++ pieces.flatten)).2 := by
  induction pieces generalizing s o with
  | nil =>
    rw [List.flatten_nil, List.append_nil]
    exact .inl rfl
  | cons next pieces ih =>
    have hjoin := type_type (e := e) h o (next ++ pieces.flatten)
    rw [List.flatten_cons]
    refine Alike.trans ?_ hjoin
    rcases h.type (e := e) o with hgoes | hover
    · exact ih hgoes next
    · rw [type_of_finished hover]
      exact .inl (run_typing_of_finished hover (next :: pieces))

/-- **Lines that do not end the console** are heard, and the session goes on. -/
theorem run_lines (h : Attended s) {pieces : List Octets} (hpieces : pieces ≠ []) (hlines : ∀ text ∈ texts, IsLine text)
    (hends : ¬Ends texts) (hrest : Console.lineFeed ∉ rest)
    (htyped : s.console.typed ++ pieces.flatten = Console.lines texts ++ rest) :
    run e (typing pieces) s =
      { s with station := s.station.posted e.link (messages texts), console := ⟨rest, false⟩ } := by
  obtain ⟨o, more, rfl⟩ := List.exists_cons_of_ne_nil hpieces
  have htype : (s.type e (o ++ more.flatten)).2 =
      { s with station := s.station.posted e.link (messages texts), console := ⟨rest, false⟩ } :=
    (type_of_typed h htyped).trans (attend_unfinished hlines hends hrest rfl)
  rcases run_typing (e := e) h o more with heq | ⟨hover, hmute⟩
  · exact heq.trans htype
  · -- a session that goes on is not like one that is over
    rw [htype] at hmute
    have hphase := congrArg Session.phase hmute
    simp only [mute, hover.phase, h.phase] at hphase
    cases hphase

/-- **With a line that ends the console**, what comes behind it does not matter. -/
theorem run_exit (h : Attended s) {pieces : List Octets} (hpieces : pieces ≠ []) (hlines : ∀ text ∈ texts, IsLine text)
    (hends : Ends texts) (htyped : s.console.typed ++ pieces.flatten = Console.lines texts ++ rest)
    (acts : List (Act σ)) :
    (run e (typing pieces ++ acts) s).mute = run e (others acts) (s.mute.left e (messages texts)) := by
  obtain ⟨o, more, rfl⟩ := List.exists_cons_of_ne_nil hpieces
  have hmute : (run e (typing (o :: more)) s).mute = s.mute.left e (messages texts) := by
    have htype : (s.type e (o ++ more.flatten)).2 = { s with console := ⟨Console.lines texts ++ rest, false⟩ }.attend e :=
      type_of_typed h htyped
    rw [(run_typing h o more).mute_eq, htype]
    exact mute_attend_of_ends hlines hends rfl
  exact run_append_of_left hmute acts

/-- **The end of input** ends a session as a line does. -/
theorem run_close (h : Attended s) (pieces : List Octets) (hlines : ∀ text ∈ texts, IsLine text) (hends : ¬Ends texts)
    (htyped : s.console.typed ++ pieces.flatten = Console.lines texts) (acts : List (Act σ)) :
    (run e (typing pieces ++ .close :: acts) s).mute = run e (others acts) (s.mute.left e (messages texts)) := by
  have hmute : (run e (typing pieces ++ [.close]) s).mute = s.mute.left e (messages texts) := by
    rw [run_append]
    show ((run e (typing pieces) s).close e).mute = _
    by_cases hpieces : pieces = []
    · subst hpieces
      rw [List.flatten_nil, List.append_nil] at htyped
      rw [show run e (typing []) s = s from rfl, close_of_attended h, htyped]
      exact mute_attend_of_ended hlines rfl
    · have hgoes : Attended { s with station := s.station.posted e.link (messages texts), console := ⟨[], false⟩ } :=
        ⟨h.phase, h.stopped, rfl⟩
      rw [run_lines h hpieces hlines hends List.not_mem_nil (htyped.trans (List.append_nil _).symm),
        close_of_attended hgoes]
      have hnone : ∀ text ∈ ([] : List String), IsLine text := by simp
      exact mute_attend_of_ended hnone rfl
  rw [← List.singleton_append, ← List.append_assoc]
  exact run_append_of_left hmute acts

/-! ## What a session hears -/

/-- What a session makes of input, as far as its lines go. -/
structure Hears (e : Surroundings σ) (texts : List String) (s : Session σ) : Prop where
  /-- If none of the lines ends the console, their messages are posted and the session goes on with the line that is not
  finished. -/
  goesOn : ¬Ends texts → ∀ pieces rest, pieces ≠ [] → Console.lineFeed ∉ rest →
    s.console.typed ++ pieces.flatten = Console.lines texts ++ rest →
    run e (typing pieces) s =
      { s with station := s.station.posted e.link (messages texts), console := ⟨rest, false⟩ }
  /-- If one of them does, the session is over once the messages before that line are posted, and neither what was typed
  behind the lines nor what is typed later has an effect. -/
  exit : Ends texts → ∀ pieces rest acts, pieces ≠ [] →
    s.console.typed ++ pieces.flatten = Console.lines texts ++ rest →
    (run e (typing pieces ++ acts) s).mute = run e (others acts) (s.mute.left e (messages texts))
  /-- So it is if the input ends behind the lines. -/
  close : ¬Ends texts → ∀ pieces acts, s.console.typed ++ pieces.flatten = Console.lines texts →
    (run e (typing pieces ++ .close :: acts) s).mute = run e (others acts) (s.mute.left e (messages texts))
  /-- Two courses of events that agree up to the line that ends the console come to the same station. -/
  same : Ends texts → ∀ pieces pieces' rest rest' acts acts', pieces ≠ [] → pieces' ≠ [] →
    s.console.typed ++ pieces.flatten = Console.lines texts ++ rest →
    s.console.typed ++ pieces'.flatten = Console.lines texts ++ rest' → others acts = others acts' →
    (run e (typing pieces ++ acts) s).station = (run e (typing pieces' ++ acts') s).station
  /-- And so do two of which one has such a line where the input of the other ends. -/
  closeSame : ¬Ends texts → ∀ line, Command.parse line = .exit → IsLine line → ∀ pieces pieces' rest acts acts',
    pieces' ≠ [] → s.console.typed ++ pieces.flatten = Console.lines texts →
    s.console.typed ++ pieces'.flatten = Console.lines (texts ++ [line]) ++ rest → others acts = others acts' →
    (run e (typing pieces ++ .close :: acts) s).station = (run e (typing pieces' ++ acts') s).station

/-- **A session whose console is read** hears lines up to the one that ends the console. -/
theorem Attended.hears (h : Attended s) (hlines : ∀ text ∈ texts, IsLine text) : Hears e texts s := by
  constructor
  · intro hends pieces rest hpieces hrest htyped
    exact run_lines h hpieces hlines hends hrest htyped
  · intro hends pieces rest acts hpieces htyped
    exact run_exit h hpieces hlines hends htyped acts
  · intro hends pieces acts htyped
    exact run_close h pieces hlines hends htyped acts
  · intro hends pieces pieces' rest rest' acts acts' hpieces hpieces' htyped htyped' hacts
    have hfirst := run_exit (e := e) h hpieces hlines hends htyped acts
    have hsecond := run_exit (e := e) h hpieces' hlines hends htyped' acts'
    rw [hacts, ← hsecond] at hfirst
    exact station_eq_of_mute hfirst
  · intro hends line hexit hline pieces pieces' rest acts acts' hpieces' htyped htyped' hacts
    have hall : ∀ text ∈ texts ++ [line], IsLine text := by
      intro text htext
      rcases List.mem_append.1 htext with hold | hnew
      · exact hlines text hold
      · rwa [List.mem_singleton.1 hnew]
    have hstops : Ends (texts ++ [line]) := Command.ends_append.2 (.inr (Command.ends_cons.2 (.inl hexit)))
    have hfirst := run_close (e := e) h pieces hlines hends htyped acts
    have hsecond := run_exit (e := e) h hpieces' hall hstops htyped' acts'
    rw [Command.messages_append hends, Command.messages_of_exit hexit, List.append_nil] at hsecond
    rw [hacts, ← hsecond] at hfirst
    exact station_eq_of_mute hfirst

/-- **The console acts until its exit.** Lines come to the messages that they ask for, each handed to the client in its
turn and counted if it was taken, up to the line that ends the console; every reading of the console comes to that; the
console is read, whatever happens short of a stop, until the session is over; and until then a session makes of its
input, in whatever pieces it is typed and whatever is typed behind that line, what the lines up to there come to, the end
of the input being as good as such a line. -/
theorem console_acts_until_exit (e : Surroundings σ) :
    (∀ texts (s : Station σ), s.obeyAll e.link texts = (decide (¬Ends texts), s.posted e.link (messages texts))) ∧
      (∀ s : Session σ, s.attend e =
        { s with console := s.console.read.2.2 }.hear e s.console.read.1 s.console.read.2.1) ∧
      (∀ (s : Session σ) acts, Attended s → Attended (run e acts s) ∨ Finished (run e acts s)) ∧
      ∀ (s : Session σ) (texts : List String), Attended s → (∀ text ∈ texts, IsLine text) → Hears e texts s := by
  refine ⟨?_, ?_, ?_, ?_⟩
  · intro texts s
    exact Station.obeyAll_eq e.link texts s
  · intro s
    exact attend_eq e s
  · intro s acts h
    exact h.run acts
  · intro s texts h hlines
    exact h.hears hlines

/-- A session of Bob's, who has one coin to write to Ada with. -/
def chat : Session Broker where
  station :=
    { client :=
        { user := "bob"
          mint := { attempts := .constant fun _ => .error "no keys" }
          inventory := (Ledger.newcomer.inventory.onCache (·.store Ledger.bronzeCoin)).2 }
      random := .counting
      line := Ledger.market }
  epoch := 0
  phase := .running

/-- Bob writes to Ada twice, for which he has one coin, and leaves. What he types behind that is not sent, and with the
input closed instead it comes to the same. -/
theorem console_acts_until_exit_chat :
    let e : Surroundings Broker := { link := .direct, tell := fun _ b => b }
    let texts := ["ada: hi", "ada: again", " exit "]
    let pieces := [Console.lines ["ada: hi"], Console.lines ["ada: again", " exit ", "ada: late"]]
    Attended chat ∧ Ends texts ∧ messages texts = [("ada", "hi"), ("ada", "again")] ∧
      (chat.station.obeyAll e.link texts).2.tracker.window.toList = [("ada", 1)] ∧
      (run e (typing pieces ++ [.type (Console.lines ["ada: later"]), .wait 5]) chat).station =
        (run e (typing [Console.lines texts] ++ [.wait 5]) chat).station ∧
      (run e (typing [Console.lines ["ada: hi", "ada: again"]] ++ [.close, .wait 5]) chat).station =
        (run e (typing pieces ++ [.wait 5]) chat).station := by
  intro e texts pieces
  have hchat : Attended chat := ⟨rfl, rfl, rfl⟩
  have hears : ∀ texts, (∀ text ∈ texts, IsLine text) → Hears e texts chat :=
    fun texts => (console_acts_until_exit e).2.2.2 chat texts hchat
  have hlate := (hears texts (by decide +kernel)).same (by decide +kernel) pieces [Console.lines texts]
    (Console.lines ["ada: late"]) [] [.type (Console.lines ["ada: later"]), .wait 5] [.wait 5] (by simp) (by simp)
    (by decide +kernel) (by decide +kernel) rfl
  have hclose := (hears ["ada: hi", "ada: again"] (by decide +kernel)).closeSame (by decide +kernel) " exit "
    (by decide +kernel) (by decide +kernel) [Console.lines ["ada: hi", "ada: again"]] pieces
    (Console.lines ["ada: late"]) [.wait 5] [.wait 5] (by simp) (by decide +kernel) (by decide +kernel) rfl
  exact ⟨hchat, by decide +kernel, by decide +kernel, by decide +kernel, hlate, hclose⟩

end CoinRelay.Session
