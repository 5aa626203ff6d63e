import CoinRelay.Text.Styled

/-!
# Options of a program

A program is told what to do by options. Each has a long name, most have a value, and what an option does is a change
of the program's settings.

- `Parameter`: an option; `Program`: a program and its options;
- `Fault`: why arguments are refused, and `Fault.report`, its text.
-/

namespace CoinRelay.Options

/-! ## Options -/

/-- What an option does to settings of a type. A value may be refused for a reason. -/
inductive Action (σ : Type)
  | help
  | version
  | raise (change : σ → σ)
  | store (change : String → σ → Except String σ)
  | append (change : String → σ → Except String σ)

/-- An option: its names, the name of its value in the help, what it does, what the help says of it, the value it has
when it is not given, whether it must be given, and whether what looks like another option may be its value. -/
structure Parameter (σ : Type) where
  long : String
  short : Option Char := none
  placeholder : String := ""
  action : Action σ
  about : String
  standard : Option String := none
  isRequired : Bool := false
  takesDashes : Bool := false

namespace Parameter

variable {σ : Type}

/-- Whether an option has a value. -/
def takesValue (o : Parameter σ) : Bool :=
  match o.action with
  | .store _ | .append _ => true
  | _ => false

/-- An option as messages name it. -/
def usage (o : Parameter σ) : String :=
  if o.takesValue then s!"--{o.long} <{o.placeholder}>" else s!"--{o.long}"

/-- The option that asks for the help. -/
def help : Parameter σ where
  long := "help"
  short := some 'h'
  action := .help
  about := "Print help"

/-- The option that asks for the version. -/
def version : Parameter σ where
  long := "version"
  short := some 'V'
  action := .version
  about := "Print version"

end Parameter

/-- A program with settings of a type, and its own options. -/
structure Program (σ : Type) where
  name : String
  version : String
  about : String
  own : List (Parameter σ)

namespace Program

variable {σ : Type}

/-- All options of a program: its own, and those that every program has. -/
def parameters (p : Program σ) : List (Parameter σ) := p.own ++ [.help, .version]

/-- The option of a long name. -/
def long? (p : Program σ) (name : String) : Option (Parameter σ) := p.parameters.find? (·.long = name)

/-- The option of a short name. -/
def short? (p : Program σ) (name : Char) : Option (Parameter σ) := p.parameters.find? (·.short = some name)

end Program

/-! ## Faults -/

/-- Why arguments are refused. Options are given as messages name them. -/
inductive Fault
  | unexpectedArgument (argument : String)
  | repeatedOption (usage : String)
  | missingValue (usage : String)
  | needlessValue (value usage : String)
  | refusedValue (value usage reason : String)
  | missingOptions (usages : List String)
  deriving DecidableEq, Repr

/-- The text of a cause. What was refused and what is asked for stand out in it. -/
def Fault.account : Fault → Styled
  | unexpectedArgument argument =>
    [(.plain, "unexpected argument '"), (.refused, argument), (.plain, "' found")]
  | repeatedOption usage =>
    [(.plain, "the argument '"), (.refused, usage), (.plain, "' cannot be used multiple times")]
  | missingValue usage =>
    [(.plain, "a value is required for '"), (.refused, usage), (.plain, "' but none was supplied")]
  | needlessValue value usage =>
    [(.plain, "unexpected value '"), (.refused, value), (.plain, "' for '"), (.literal, usage),
     (.plain, "' found; no more were expected")]
  | refusedValue value usage reason =>
    [(.plain, "invalid value '"), (.refused, value), (.plain, "' for '"), (.literal, usage), (.plain, s!"': {reason}")]
  | missingOptions usages =>
    (.plain, "the following required arguments were not provided:") ::
      usages.flatMap fun usage => [(.plain, "\n  "), (.wanted, usage)]

/-- The text of a cause under its title, and where to turn for help. -/
def Fault.report (f : Fault) : Styled :=
  (.title, "error:") :: (.plain, " ") :: f.account ++
    [(.plain, "\n\nFor more information, try '"), (.literal, "--help"), (.plain, "'.")]

end CoinRelay.Options
