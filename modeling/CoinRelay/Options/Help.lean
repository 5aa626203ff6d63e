import CoinRelay.Options.Basic

/-!
# Help

What a program says of itself: its name and version, and its options, each with a line below that tells what it is for.

- `Program.versionText`, `Program.helpText`.
-/

namespace CoinRelay.Options

variable {σ : Type}

/-- The names of an option, aligned to those with a short one. -/
def Parameter.heading (o : Parameter σ) : String :=
  match o.short with
  | some c => s!"  -{c}, {o.usage}"
  | none => s!"      {o.usage}"

/-- What an option is for, with its standard value. -/
def Parameter.account (o : Parameter σ) : String :=
  match o.standard with
  | some value => s!"          {o.about} [default: {value}]"
  | none => s!"          {o.about}"

namespace Program

/-- The name and the version of a program. -/
def versionText (p : Program σ) : String := s!"{p.name} {p.version}"

/-- How a program is called. -/
def usageText (p : Program σ) : String :=
  " ".intercalate (s!"Usage: {p.name} [OPTIONS]" :: (p.own.filter (·.isRequired)).map (·.usage))

/-- The help of a program. -/
def helpText (p : Program σ) : String :=
  "\n".intercalate
    ([p.about, "", p.usageText, "", "Options:"] ++ p.parameters.flatMap fun o => [o.heading, o.account])

end Program

end CoinRelay.Options
