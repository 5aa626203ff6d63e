import CoinRelay.Contact.Tracker
import CoinRelay.Proofs.Inventory.Ordered
import Mathlib.Algebra.Order.Ring.Nat
import Mathlib.Data.List.DropRight
import Mathlib.Data.List.Forall2

/-!
# Interaction rates over time

Baselines are set, messages are counted and snapshots are taken in any order (`Event`). Every message is counted in the
snapshot that comes next and in no other (`snapshots_reflect_messages`).

- `lastBaseline?`, `messages`: what the events so far tell of a user;
- `Reflects`, `Reflects.run`: the tracker after them;
- `Reports`, `Reflects.snapshot`: the snapshot taken then;
- `histories`, `reports`, `forall₂_reports`: every snapshot of a run, with what came before it;
- `sum_histories`: the messages of a run add up;
- `collected_eq`: the order in which entries are gone through does not matter.
-/

namespace CoinRelay.Tracker

/-! ## Saturating sums -/

/-- A number as far as 32 bits go. -/
def cap (n : Nat) : UInt32 := UInt32.ofNat (min n (UInt32.size - 1))

theorem toNat_cap (n : Nat) : (cap n).toNat = min n (UInt32.size - 1) :=
  UInt32.toNat_ofNat_of_lt' (Nat.lt_of_le_of_lt (Nat.min_le_right _ _) (by decide))

theorem cap_toNat (a : UInt32) : cap a.toNat = a := by
  have hlt := a.toNat_lt_size
  rw [← UInt32.toNat_inj, toNat_cap]
  omega

/-- **Saturating twice** is saturating once. -/
theorem saturatingAdd_cap (a : UInt32) (n : Nat) : saturatingAdd a (cap n) = cap (a.toNat + n) := by
  unfold saturatingAdd
  rw [toNat_cap, cap]
  congr 1
  omega

theorem cap_saturatingAdd (n : Nat) : saturatingAdd (cap n) 1 = cap (n + 1) := by
  unfold saturatingAdd
  rw [toNat_cap, cap, UInt32.toNat_one]
  congr 1
  have hsize : 0 < UInt32.size := by decide
  omega

/-! ## Events -/

/-- What happens to a tracker. -/
inductive Event
  | baseline (user : String) (rate : UInt32)
  | message (user : String)
  | snapshot
  deriving DecidableEq, Repr

namespace Event

/-- The tracker after an event. -/
def after (event : Event) (t : Tracker) : Tracker :=
  match event with
  | baseline user rate => t.setBaseline user rate
  | message user => t.record user
  | snapshot => t.snapshot.2

/-- The rates that an event reports. -/
def report? (event : Event) (t : Tracker) : Option (List (String × UInt32)) :=
  match event with
  | snapshot => some t.snapshot.1
  | baseline _ _ | message _ => none

/-- The baseline that an event sets for a user. -/
def baselineOf? (user : String) (event : Event) : Option UInt32 :=
  match event with
  | baseline other rate => if other = user then some rate else none
  | message _ | snapshot => none

end Event

/-- The tracker after events, one after the other. -/
def run (events : List Event) (t : Tracker) : Tracker := events.foldl (fun t event => event.after t) t

theorem run_append (events more : List Event) (t : Tracker) : run (events ++ more) t = run more (run events t) :=
  List.foldl_append

/-- What the snapshots among events report, one after the other. -/
def reports : List Event → Tracker → List (List (String × UInt32))
  | [], _ => []
  | event :: events, t => (event.report? t).toList ++ reports events (event.after t)

theorem reports_append (events more : List Event) (t : Tracker) :
    reports (events ++ more) t = reports events t ++ reports more (run events t) := by
  induction events generalizing t with
  | nil => rfl
  | cons event events ih =>
    rw [List.cons_append, reports, reports, ih, List.append_assoc]
    rfl

/-! ## What events tell of a user -/

/-- The baseline that was set last. -/
def lastBaseline? (user : String) (events : List Event) : Option UInt32 :=
  (events.filterMap (Event.baselineOf? user)).getLast?

/-- The number of messages since the last snapshot. -/
def messages (user : String) (events : List Event) : Nat :=
  (events.rtakeWhile (· ≠ .snapshot)).count (.message user)

/-- The events before each snapshot, if others came before them. -/
def histories (past : List Event) : List Event → List (List Event)
  | [] => []
  | event :: events => (if event = .snapshot then [past] else []) ++ histories (past ++ [event]) events

section

variable (user : String) (events : List Event)

theorem lastBaseline?_concat (event : Event) :
    lastBaseline? user (events ++ [event]) = (event.baselineOf? user).or (lastBaseline? user events) := by
  unfold lastBaseline?
  rw [List.filterMap_append, List.getLast?_append]
  cases h : event.baselineOf? user <;> simp [h]

theorem messages_snapshot : messages user (events ++ [.snapshot]) = 0 := by
  unfold messages
  rw [List.rtakeWhile_concat_neg _ _ _ (by simp)]
  rfl

theorem messages_concat {event : Event} (h : event ≠ .snapshot) :
    messages user (events ++ [event]) = messages user events + [event].count (.message user) := by
  unfold messages
  rw [List.rtakeWhile_concat_pos _ _ _ (by simpa using h), List.count_append]

/-- **The messages add up**: each is counted before the snapshot that comes next, or since the last one. -/
theorem sum_histories (past : List Event) :
    ((histories past events).map (messages user)).sum + messages user (past ++ events) =
      messages user past + events.count (.message user) := by
  induction events generalizing past with
  | nil => simp [histories]
  | cons event events ih =>
    have hrest := ih (past ++ [event])
    rw [List.append_assoc, List.singleton_append] at hrest
    rw [histories, List.map_append, List.sum_append, List.count_cons, Nat.add_assoc, hrest]
    by_cases h : event = .snapshot
    · subst h
      rw [messages_snapshot]
      simp
    · rw [messages_concat user past h, List.count_singleton]
      simp [h]
      omega

end

/-! ## The tracker after events -/

/-- A tracker knows of each user the baseline that was set last and the messages since the last snapshot. -/
structure Reflects (events : List Event) (t : Tracker) : Prop where
  baseline : ∀ user : String, t.baseline[user]? = lastBaseline? user events
  window : ∀ user : String, t.window[user]? =
    if messages user events = 0 then none else some (cap (messages user events))

variable {events : List Event} {t : Tracker}

theorem Reflects.empty : Reflects [] {} := by
  constructor <;> intro user <;> simp [lastBaseline?, messages]

theorem Reflects.getD_window (h : Reflects events t) (user : String) :
    t.window.getD user 0 = cap (messages user events) := by
  rw [Std.ExtTreeMap.getD_eq_getD_getElem?, h.window]
  split
  · next hnone =>
    rw [hnone]
    rfl
  · rfl

/-- **Every event** leaves a tracker that knows of it. -/
theorem Reflects.after (h : Reflects events t) (event : Event) : Reflects (events ++ [event]) (event.after t) := by
  constructor
  · intro user
    rw [lastBaseline?_concat, ← h.baseline]
    cases event with
    | baseline other rate =>
      simp only [Event.after, setBaseline, Ordered.getElem?_insert_eq, Event.baselineOf?]
      split <;> rfl
    | message other => rfl
    | snapshot => rfl
  · intro user
    cases event with
    | baseline other rate =>
      rw [messages_concat user events (by simp)]
      exact h.window user
    | snapshot =>
      rw [messages_snapshot]
      exact Std.ExtTreeMap.getElem?_empty
    | message other =>
      rw [messages_concat user events (by simp)]
      simp only [Event.after, record, Ordered.getElem?_insert_eq, h.getD_window, cap_saturatingAdd]
      split
      · next hu =>
        subst hu
        simp
      · next hu =>
        simpa [hu] using h.window user

/-- **After any events** a tracker knows of these as well. -/
theorem Reflects.run (h : Reflects events t) (more : List Event) : Reflects (events ++ more) (run more t) := by
  induction more generalizing events t with
  | nil => rwa [List.append_nil]
  | cons event more ih =>
    have hrest := ih (h.after event)
    rwa [List.append_assoc] at hrest

/-! ## Snapshots -/

section

variable {sent : List (String × UInt32)} {user : String} {n : UInt32} (rates : Std.ExtTreeMap String UInt32)

theorem getElem?_addSent (sent : String × UInt32) (user : String) :
    (addSent rates sent)[user]? =
      if sent.1 = user then some (saturatingAdd (rates.getD user 0) sent.2) else rates[user]? := by
  rw [addSent, Ordered.getElem?_insert_eq]
  split
  · next h => rw [h]
  · rfl

/-- The rates of the others stay. -/
theorem getElem?_foldl_addSent_of_not_mem (h : user ∉ sent.map (·.1)) :
    (sent.foldl addSent rates)[user]? = rates[user]? := by
  induction sent generalizing rates with
  | nil => rfl
  | cons entry sent ih =>
    rw [List.map_cons, List.mem_cons, not_or] at h
    rw [List.foldl_cons, ih _ h.2, getElem?_addSent, if_neg (Ne.symm h.1)]

/-- The messages to a user are added to its rate. -/
theorem getElem?_foldl_addSent_of_mem (hnodup : (sent.map (·.1)).Nodup) (h : (user, n) ∈ sent) :
    (sent.foldl addSent rates)[user]? = some (saturatingAdd (rates.getD user 0) n) := by
  induction sent generalizing rates with
  | nil => cases h
  | cons entry sent ih =>
    obtain ⟨hnew, hnodup⟩ := List.nodup_cons.1 hnodup
    rw [List.foldl_cons]
    rcases List.mem_cons.1 h with rfl | h
    · rw [getElem?_foldl_addSent_of_not_mem _ hnew, getElem?_addSent, if_pos rfl]
    · have hne : entry.1 ≠ user := by
        intro hu
        exact hnew (List.mem_map.2 ⟨(user, n), h, hu.symm⟩)
      rw [ih _ hnodup h, Std.ExtTreeMap.getD_eq_getD_getElem?, getElem?_addSent, if_neg hne,
        Std.ExtTreeMap.getD_eq_getD_getElem?]

end

/-- No user has two entries. -/
theorem nodup_users (m : Std.ExtTreeMap String UInt32) : (m.toList.map (·.1)).Nodup := by
  refine List.pairwise_map.2 (Std.ExtTreeMap.distinct_keys_toList.imp fun {a b} h => ?_)
  intro hab
  exact h (Std.compare_eq_iff_eq.2 hab)

/-- The entries come in the order of the users. -/
theorem ascending_users (m : Std.ExtTreeMap String UInt32) : (m.toList.map (·.1)).Pairwise (· < ·) := by
  refine List.pairwise_map.2 (Std.ExtTreeMap.ordered_keys_toList.imp fun {a b} h => ?_)
  exact compareOfLessAndEq_eq_lt.1 h

/-- What is reported after events: for the users that have a baseline or messages since the last snapshot, in their
order, the sum of the two as far as 32 bits go. -/
structure Reports (events : List Event) (report : List (String × UInt32)) : Prop where
  ascending : (report.map (·.1)).Pairwise (· < ·)
  mem_iff : ∀ user rate, (user, rate) ∈ report ↔
    (lastBaseline? user events ≠ none ∨ 0 < messages user events) ∧
      rate.toNat = min (UInt32.size - 1) (((lastBaseline? user events).getD 0).toNat + messages user events)

/-- **A snapshot** reports what its tracker knows. -/
theorem Reflects.snapshot (h : Reflects events t) : Reports events t.snapshot.1 := by
  constructor
  · exact ascending_users _
  · intro user rate
    have hrate : ∀ n, rate.toNat = min (UInt32.size - 1) n ↔ cap n = rate := by
      intro n
      rw [← UInt32.toNat_inj, toNat_cap, Nat.min_comm, eq_comm]
    rw [hrate, Tracker.snapshot, Std.ExtTreeMap.mem_toList_iff_getElem?_eq_some]
    have hbaseline := h.baseline user
    have hwindow := h.window user
    by_cases hmessages : messages user events = 0
    · rw [if_pos hmessages] at hwindow
      have hnone : user ∉ t.window.toList.map (·.1) := by
        intro hmem
        obtain ⟨⟨other, n⟩, hn, rfl⟩ := List.mem_map.1 hmem
        rw [Std.ExtTreeMap.mem_toList_iff_getElem?_eq_some, hwindow] at hn
        cases hn
      rw [getElem?_foldl_addSent_of_not_mem _ hnone, hbaseline, hmessages]
      cases lastBaseline? user events <;> simp [cap_toNat]
    · rw [if_neg hmessages] at hwindow
      have hmem := Std.ExtTreeMap.mem_toList_iff_getElem?_eq_some.2 hwindow
      have hpos := Nat.pos_of_ne_zero hmessages
      rw [getElem?_foldl_addSent_of_mem _ (nodup_users _) hmem, saturatingAdd_cap,
        Std.ExtTreeMap.getD_eq_getD_getElem?, hbaseline, Option.some.injEq]
      simp [hpos]

/-- **Every snapshot of a run** reports what came before it. -/
theorem forall₂_reports {past : List Event} (h : Reflects past t) (events : List Event) :
    List.Forall₂ Reports (histories past events) (reports events t) := by
  induction events generalizing past t with
  | nil => exact .nil
  | cons event events ih =>
    have hrest := ih (h.after event)
    cases event with
    | snapshot => exact .cons h.snapshot hrest
    | baseline user rate => exact hrest
    | message user => exact hrest

/-! ## The order of entries -/

/-- The rates that are collected from baselines and numbers of messages, gone through in the order given. -/
def collected (baseline window : List (String × UInt32)) : List (String × UInt32) :=
  (window.foldl addSent (.ofList baseline)).toList

/-- The entries of a map in any order make the map. -/
theorem ofList_of_perm {m : Std.ExtTreeMap String UInt32} {entries : List (String × UInt32)}
    (h : entries.Perm m.toList) : .ofList entries = m := by
  have hdistinct : entries.Pairwise fun a b => ¬compare a.1 b.1 = .eq :=
    (List.Perm.pairwise_iff (fun hab hba => hab (Std.OrientedCmp.eq_symm hba)) h).2 Std.ExtTreeMap.distinct_keys_toList
  apply Std.ExtTreeMap.ext_getElem?
  intro user
  cases hu : m[user]? with
  | some rate =>
    have hmem : (user, rate) ∈ entries := h.mem_iff.2 (Std.ExtTreeMap.mem_toList_iff_getElem?_eq_some.2 hu)
    exact Std.ExtTreeMap.getElem?_ofList_of_mem Std.ReflCmp.compare_self hdistinct hmem
  | none =>
    apply Std.ExtTreeMap.getElem?_ofList_of_contains_eq_false
    rw [← Bool.not_eq_true, List.contains_iff_mem]
    intro hmem
    obtain ⟨⟨other, rate⟩, hentry, rfl⟩ := List.mem_map.1 hmem
    rw [h.mem_iff, Std.ExtTreeMap.mem_toList_iff_getElem?_eq_some, hu] at hentry
    cases hentry

/-- Numbers of messages may be added in any order. -/
theorem foldl_addSent_of_perm {sent sent' : List (String × UInt32)} (h : sent.Perm sent')
    (hnodup : (sent'.map (·.1)).Nodup) (rates : Std.ExtTreeMap String UInt32) :
    sent.foldl addSent rates = sent'.foldl addSent rates := by
  have husers := h.map (·.1)
  apply Std.ExtTreeMap.ext_getElem?
  intro user
  by_cases hu : user ∈ sent'.map (·.1)
  · obtain ⟨⟨other, n⟩, hn, rfl⟩ := List.mem_map.1 hu
    rw [getElem?_foldl_addSent_of_mem rates hnodup hn,
      getElem?_foldl_addSent_of_mem rates (husers.nodup_iff.2 hnodup) (h.mem_iff.2 hn)]
  · have hu' : user ∉ sent.map (·.1) := fun hmem => hu (husers.mem_iff.1 hmem)
    rw [getElem?_foldl_addSent_of_not_mem rates hu, getElem?_foldl_addSent_of_not_mem rates hu']

/-- **The order of the entries** does not matter. -/
theorem collected_eq {baseline window : List (String × UInt32)} (hbaseline : baseline.Perm t.baseline.toList)
    (hwindow : window.Perm t.window.toList) : collected baseline window = t.snapshot.1 := by
  rw [collected, ofList_of_perm hbaseline, foldl_addSent_of_perm hwindow (nodup_users t.window)]
  rfl

/-- **Snapshots reflect messages.** Whatever happens to a new tracker, each snapshot lists, in the order of the users,
those who have a baseline or got messages since the snapshot before it, with the sum of the two as far as 32 bits go; each
message is counted in one snapshot, the next, or since the last; and the order in which the entries of a tracker are gone
through does not matter. -/
theorem snapshots_reflect_messages :
    (∀ events, List.Forall₂ Reports (histories [] events) (reports events {})) ∧
      (∀ events user, ((histories [] events).map (messages user)).sum + messages user events =
        events.count (.message user)) ∧
      ∀ (t : Tracker) (baseline window : List (String × UInt32)), baseline.Perm t.baseline.toList →
        window.Perm t.window.toList → collected baseline window = t.snapshot.1 := by
  refine ⟨fun events => forall₂_reports .empty events, fun events user => ?_, fun t baseline window => collected_eq⟩
  have hsum := sum_histories user events []
  rw [List.nil_append] at hsum
  rw [hsum]
  exact Nat.zero_add _

end CoinRelay.Tracker
