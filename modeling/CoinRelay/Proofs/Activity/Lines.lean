import CoinRelay.Activity.Station
import CoinRelay.Proofs.Contact.Rates
import CoinRelay.Proofs.Inventory.Calls

/-!
# What console lines come to

The messages of lines are handed to the client one after the other, up to the line that ends the console, and those that
were taken are counted (`obeyAll_eq`). A failure does not keep the later messages from being sent.

- `Command.messages`, `Command.Ends`: what lines ask to be sent, and whether one of them ends the console;
- `Station.posted`: the station after messages were handed to the client;
- `Station.posted_append`: messages in two parts.
-/

namespace CoinRelay

/-! ## Lines -/

namespace Command

variable {texts : List String}

/-- The recipient and the text of a message. -/
def message? : Command → Option (String × String)
  | send recipient text => some (recipient, text)
  | exit | ignored => none

/-- What lines ask to be sent, up to the first that ends the console. -/
def messages (texts : List String) : List (String × String) :=
  ((texts.map parse).takeWhile (· ≠ exit)).filterMap message?

/-- One of the lines ends the console. -/
def Ends (texts : List String) : Prop := exit ∈ texts.map parse

instance (texts : List String) : Decidable (Ends texts) := inferInstanceAs (Decidable (_ ∈ _))

theorem ends_cons {text : String} : Ends (text :: texts) ↔ parse text = exit ∨ Ends texts := by
  unfold Ends
  rw [List.map_cons, List.mem_cons, eq_comm]

theorem messages_of_exit {text : String} (h : parse text = exit) (texts : List String) :
    messages (text :: texts) = [] := by
  simp [messages, h]

theorem messages_cons {text : String} (h : parse text ≠ exit) (texts : List String) :
    messages (text :: texts) = (parse text).message?.toList ++ messages texts := by
  simp only [messages, List.map_cons, List.takeWhile_cons, h, ne_eq, not_false_eq_true, decide_true, if_true,
    List.filterMap_cons]
  cases (parse text).message? <;> rfl

/-- What comes behind the line that ends the console asks for nothing. -/
theorem messages_append_of_ends (h : Ends texts) (more : List String) : messages (texts ++ more) = messages texts := by
  induction texts with
  | nil => cases h
  | cons text texts ih =>
    rw [List.cons_append]
    by_cases hexit : parse text = exit
    · rw [messages_of_exit hexit, messages_of_exit hexit]
    · rw [messages_cons hexit, messages_cons hexit, ih ((ends_cons.1 h).resolve_left hexit)]

theorem messages_append (h : ¬Ends texts) (more : List String) :
    messages (texts ++ more) = messages texts ++ messages more := by
  induction texts with
  | nil => rfl
  | cons text texts ih =>
    obtain ⟨hexit, hrest⟩ := not_or.1 (mt ends_cons.2 h)
    rw [List.cons_append, messages_cons hexit, messages_cons hexit, ih hrest, List.append_assoc]

theorem ends_append {more : List String} : Ends (texts ++ more) ↔ Ends texts ∨ Ends more := by
  unfold Ends
  rw [List.map_append, List.mem_append]

end Command

/-! ## Messages -/

namespace Station

open Command (messages Ends)

variable {σ : Type} (link : Link σ)

/-- Hands a message to a client, with the random octets and the line of its station. -/
def post (tier : Tier) (message : String × String) (state : Client × Supply UInt8 × σ) :
    Except ClientError KeyId × Client × Supply UInt8 × σ :=
  let (client, random, line) := state
  let (result, random, client, line) := client.send link message.1 message.2 tier random line
  (result, client, random, line)

/-- What a message that was taken is to the tracker. -/
def taken? : (String × String) × Except ClientError KeyId → Option Tracker.Event
  | ((recipient, _), .ok _) => some (.message recipient)
  | (_, .error _) => none

/-- The station after messages were handed to its client one after the other, each with the tier that the device selects
and whatever became of those before. Each message that was taken is counted once. -/
def posted (messages : List (String × String)) (s : Station σ) : Station σ :=
  let (answers, client, random, line) := transcript (post link s.device.tier) messages (s.client, s.random, s.line)
  { s with client, random, line, tracker := Tracker.run (answers.filterMap taken?) s.tracker }

theorem posted_cons (message : String × String) (messages : List (String × String)) (s : Station σ) :
    s.posted link (message :: messages) = (s.send link message.1 message.2).posted link messages := by
  simp only [posted, transcript_cons, send, post]
  cases (s.client.send link message.1 message.2 s.device.tier s.random s.line).1 <;> rfl

theorem posted_append (messages more : List (String × String)) (s : Station σ) :
    s.posted link (messages ++ more) = (s.posted link messages).posted link more := by
  induction messages generalizing s with
  | nil => rfl
  | cons message messages ih => rw [List.cons_append, posted_cons, posted_cons, ih]

/-- A line comes to the message that it asks for, if any, and the console goes on unless the line ends it. -/
theorem obey_eq (text : String) (s : Station σ) :
    s.obey link text = (decide (¬Ends [text]), s.posted link (messages [text])) := by
  cases hparse : Command.parse text with
  | exit =>
    rw [Command.messages_of_exit hparse, decide_eq_false (not_not_intro (Command.ends_cons.2 (.inl hparse)))]
    simp only [obey, hparse]
    rfl
  | send recipient message =>
    have hgoes : Command.parse text ≠ .exit := by simp [hparse]
    rw [Command.messages_cons hgoes, hparse, decide_eq_true (by simp [Ends, hparse])]
    simp only [obey, hparse]
    exact congrArg _ (posted_cons link (recipient, message) [] s).symm
  | ignored =>
    have hgoes : Command.parse text ≠ .exit := by simp [hparse]
    rw [Command.messages_cons hgoes, hparse, decide_eq_true (by simp [Ends, hparse])]
    simp only [obey, hparse]
    rfl

/-- **Lines** come to the messages that they ask for, up to the line that ends the console. -/
theorem obeyAll_eq (texts : List String) (s : Station σ) :
    s.obeyAll link texts = (decide (¬Ends texts), s.posted link (messages texts)) := by
  induction texts generalizing s with
  | nil => rfl
  | cons text texts ih =>
    rw [obeyAll, obey_eq]
    by_cases hends : Ends [text]
    · have hall : Ends (text :: texts) := Command.ends_append.2 (.inl hends)
      have hmessages : messages (text :: texts) = messages [text] := Command.messages_append_of_ends hends texts
      rw [hmessages, decide_eq_false (not_not_intro hends), decide_eq_false (not_not_intro hall)]
    · have hall : Ends (text :: texts) ↔ Ends texts := Command.ends_append.trans (or_iff_right hends)
      have hmessages : messages (text :: texts) = messages [text] ++ messages texts :=
        Command.messages_append hends texts
      rw [hmessages, posted_append, decide_eq_true hends]
      simp only [ih, hall]

end Station

end CoinRelay
