import CoinRelay.Options.Basic

/-!
# Reading arguments

Arguments are read from left to right. A value follows its option in the same argument, behind an equals sign or a
short name, or is the next argument. An option takes effect when the next one is read or the arguments end; those that
hold their value take effect at once.

- `Program.settings`: the settings that arguments ask for, or what they lead to instead.
-/

namespace CoinRelay.Options

/-- What arguments lead to other than settings. -/
inductive Ending
  | help
  | version
  | fault (cause : Fault)
  deriving DecidableEq, Repr

/-- The settings so far, the long names of the options that took effect, and the option that has yet to do so, with its
value once that was read. -/
structure Progress (σ : Type) where
  settings : σ
  given : List String := []
  pending : Option (Parameter σ × Option String) := none

namespace Progress

variable {σ : Type}

/-! ## Effects of options -/

/-- Stores a value by an option. -/
def put (o : Parameter σ) (change : String → σ → Except String σ) (value : String) (p : Progress σ) :
    Except Ending (Progress σ) :=
  match change value p.settings with
  | .error reason => .error (.fault (.refusedValue value o.usage reason))
  | .ok settings => .ok { p with settings, given := o.long :: p.given }

/-- Lets an option take effect. Options that append may do so any number of times, the others once. -/
def take (o : Parameter σ) (value : Option String) (p : Progress σ) : Except Ending (Progress σ) :=
  match o.action, value with
  | .help, _ => .error .help
  | .version, _ => .error .version
  | .raise change, _ =>
    if o.long ∈ p.given then .error (.fault (.repeatedOption o.usage))
    else .ok { p with settings := change p.settings, given := o.long :: p.given }
  | .store _, none | .append _, none => .error (.fault (.missingValue o.usage))
  | .store change, some value =>
    if o.long ∈ p.given then .error (.fault (.repeatedOption o.usage)) else p.put o change value
  | .append change, some value => p.put o change value

/-- Lets the pending option take effect. -/
def settle (p : Progress σ) : Except Ending (Progress σ) :=
  match p.pending with
  | none => .ok p
  | some (o, value) => { p with pending := none }.take o value

/-- Lets an option take effect after the pending one. -/
def settleAndTake (o : Parameter σ) (value : Option String) (p : Progress σ) : Except Ending (Progress σ) := do
  (← p.settle).take o value

/-- Lets an option wait for its value, after the pending one took effect. -/
def await (o : Parameter σ) (p : Progress σ) : Except Ending (Progress σ) := do
  return { (← p.settle) with pending := some (o, none) }

/-- The option that waits for its value. -/
def waiting (p : Progress σ) : Option (Parameter σ) :=
  match p.pending with
  | some (o, none) => some o
  | _ => none

end Progress

namespace Program

variable {σ : Type}

/-! ## Arguments -/

/-- Refuses an argument. -/
def refuse {α : Type} (argument : String) : Except Ending α := .error (.fault (.unexpectedArgument argument))

/-- Reads a long name, with its value if there is an equals sign. -/
def readLong (p : Program σ) (cs : List Char) (s : Progress σ) : Except Ending (Progress σ) :=
  let name := String.ofList (cs.takeWhile (· ≠ '='))
  let value := match cs.dropWhile (· ≠ '=') with
    | [] => none
    | _ :: value => some (String.ofList value)
  match p.long? name, value with
  | none, _ => refuse ("--" ++ name)
  | some o, none => if o.takesValue then s.await o else s.settleAndTake o none
  | some o, some value =>
    if o.takesValue then s.settleAndTake o (some value) else .error (.fault (.needlessValue value o.usage))

/-- Reads short names in a row. What follows the name of an option with a value is that value. -/
def readShort (p : Program σ) : List Char → Progress σ → Except Ending (Progress σ)
  | [], s => .ok s
  | c :: cs, s =>
    match p.short? c, cs with
    | none, _ => refuse (String.ofList ['-', c])
    | some o, cs =>
      if o.takesValue then
        match cs with
        | [] => s.await o
        | '=' :: value => s.settleAndTake o (some (String.ofList value))
        | value => s.settleAndTake o (some (String.ofList value))
      else do readShort p cs (← s.settleAndTake o none)

/-- Whether the option that waits takes an argument of any form. -/
def takesAny (s : Progress σ) : Bool := s.waiting.any (·.takesDashes)

/-- Reads arguments. After a lone pair of dashes none is expected. -/
def read (p : Program σ) : List String → Progress σ → Except Ending (Progress σ)
  | [], s => s.settle
  | argument :: rest, s =>
    let asValue : Except Ending (Progress σ) :=
      match s.waiting with
      | some o => .ok { s with pending := some (o, some argument) }
      | none => refuse argument
    if takesAny s then do read p rest (← asValue)
    else
      match argument.toList with
      | ['-', '-'] =>
        match rest with
        | [] => s.settle
        | argument :: _ => refuse argument
      | '-' :: '-' :: cs => do read p rest (← p.readLong cs s)
      | '-' :: c :: cs => do read p rest (← p.readShort (c :: cs) s)
      | _ => do read p rest (← asValue)

/-! ## Settings -/

/-- Gives an option its standard value if it was not given. -/
def complete (s : Progress σ) (o : Parameter σ) : Except Ending (Progress σ) :=
  if o.long ∈ s.given then .ok s
  else
    match o.standard with
    | some value => s.take o (some value)
    | none => .ok s

/-- The settings that arguments ask for, from those of a program that was told nothing. -/
def settings (p : Program σ) (blank : σ) (arguments : List String) : Except Ending σ := do
  let s ← p.read arguments { settings := blank }
  let missing := p.own.filter fun o => o.isRequired && o.long ∉ s.given
  if missing.isEmpty then return (← p.own.foldlM complete s).settings
  else throw (.fault (.missingOptions (missing.map (·.usage))))

end Program

end CoinRelay.Options
