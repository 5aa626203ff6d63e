import CoinRelay.Activity.Console
import CoinRelay.Activity.Station

/-!
# Sessions

The three activities of a station in the course of time. Maintenance and the mail check each run at once and then after
every pause of their own; the console is read whenever there is something to read. When the console ends, or a stop is
asked for, all three end.

- `Session.start`, `Session.type`, `Session.close`, `Session.stop`: what happens to a session from outside;
- `Session.wait`: lets time pass, with everything that falls due in it;
- `Session.isRunning`.
-/

namespace CoinRelay

/-- A link, and how its state learns what time it is. -/
structure Surroundings (σ : Type) where
  link : Link σ
  tell : UInt64 → σ → σ

/-- The pauses of the activities in milliseconds, and the seconds after which a contact counts as idle. -/
structure Timing where
  maintenance : Nat := 30 * 1000
  listener : Nat := 2 * 1000
  maxIdle : Nat := 30 * 24 * 60 * 60
  deriving DecidableEq, Repr

/-- How far a session has come. -/
inductive Phase
  | waiting
  | running
  | over
  deriving DecidableEq, Repr

/-- A station in time: the wall clock at the start, the milliseconds since, and when each activity is due next. -/
structure Session (σ : Type) where
  station : Station σ
  timing : Timing := {}
  epoch : UInt64
  time : Nat := 0
  phase : Phase := .waiting
  stopped : Bool := false
  maintenanceDue : Option Nat := none
  listenerDue : Option Nat := none
  console : Console := {}

namespace Session

variable {σ : Type}

/-! ## Time -/

/-- The wall clock after the whole seconds of a session. -/
def now (s : Session σ) : UInt64 := s.epoch + UInt64.ofNat (s.time / 1000)

/-- Moves a session to a time. -/
def setTime (e : Surroundings σ) (time : Nat) (s : Session σ) : Session σ :=
  let s := { s with time }
  { s with station := { s.station with line := e.tell s.now s.station.line } }

/-- Runs maintenance and sets when it is due again; without a seed left it never is. -/
def maintain (e : Surroundings σ) (s : Session σ) : Session σ :=
  match s.station.maintain? e.link (.constant s.now) s.timing.maxIdle with
  | some station => { s with station, maintenanceDue := some (s.time + max 1 s.timing.maintenance) }
  | none => { s with maintenanceDue := none }

/-- Checks the mail and sets when that is due again. -/
def listen (e : Surroundings σ) (s : Session σ) : Session σ :=
  { s with
    station := s.station.listen e.link
    listenerDue := some (s.time + max 1 s.timing.listener) }

/-! ## The console and the end -/

/-- Ends a session. -/
def finish (s : Session σ) : Session σ :=
  { s with phase := .over, stopped := true, maintenanceDue := none, listenerDue := none }

/-- Reads the console of a running session, which may end it. -/
def attend (e : Surroundings σ) (s : Session σ) : Session σ :=
  let (texts, isOver, console) := s.console.read
  let (goesOn, station) := s.station.obeyAll e.link texts
  let s := { s with station, console }
  if goesOn && !isOver then s else s.finish

/-- Lets the console of a running session run, or ends the session if a stop was asked for. -/
def settle (e : Surroundings σ) (s : Session σ) : Session σ :=
  match s.phase with
  | .running => if s.stopped then s.finish else s.attend e
  | _ => s

/-! ## What happens from outside -/

/-- Starts the activities. -/
def start (e : Surroundings σ) (s : Session σ) : Session σ :=
  match s.phase with
  | .waiting =>
    let s := { s with phase := .running }
    if s.stopped then s.finish else ((s.maintain e).listen e).settle e
  | _ => s

/-- Whether anything typed can still reach the console. -/
def acceptsInput (s : Session σ) : Bool := s.phase ≠ .over && !s.console.ended

/-- Types octets at the console; says whether they can reach it. -/
def type (e : Surroundings σ) (o : Octets) (s : Session σ) : Bool × Session σ :=
  if s.acceptsInput then (true, { s with console := s.console.type o }.settle e) else (false, s)

/-- Ends the input of the console. -/
def close (e : Surroundings σ) (s : Session σ) : Session σ :=
  { s with console := { s.console with ended := true } }.settle e

/-- Asks for a stop. -/
def stop (e : Surroundings σ) (s : Session σ) : Session σ :=
  { s with stopped := true }.settle e

/-- Runs what falls due up to a time, at most `n` times. -/
def runDue (e : Surroundings σ) (deadline : Nat) : (n : Nat) → Session σ → Session σ
  | 0, s => s
  | n + 1, s =>
    let dueBy (due : Option Nat) : Option Nat := due.filter (· ≤ deadline)
    match dueBy s.maintenanceDue, dueBy s.listenerDue with
    | none, none => s
    | some t, none => runDue e deadline n ((s.setTime e t).maintain e)
    | none, some t => runDue e deadline n ((s.setTime e t).listen e)
    | some t, some u =>
      if t ≤ u then runDue e deadline n ((s.setTime e t).maintain e)
      else runDue e deadline n ((s.setTime e u).listen e)

/-- Lets milliseconds pass. Each activity pauses for at least one of them. -/
def wait (e : Surroundings σ) (millis : Nat) (s : Session σ) : Session σ :=
  let deadline := s.time + millis
  (runDue e deadline (2 * (millis + 1)) s).setTime e deadline

/-- Whether the activities were started and have not ended. -/
def isRunning (s : Session σ) : Bool := s.phase = .running

end Session

end CoinRelay
