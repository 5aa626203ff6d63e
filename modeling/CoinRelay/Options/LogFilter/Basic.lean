import CoinRelay.Options.LogFilter.Field
import CoinRelay.Text.Cut
import CoinRelay.Text.Numeral

/-!
# Log filters

A log filter is a list of directives with commas between them. A directive names a target, a span in brackets with
a field in braces, or both, and after an equals sign the level from which on to log; or it is a level alone. Directives
that cannot be read are complained about and passed over.

Blanks around a directive do not count while its parts are told apart, but they do where the parts are cut out: a blank
in front shifts every cut, and one that hits the middle of a character ends all reading.

- `LogFilter.read`: reads a directive, or finds what is wrong with it;
- `LogFilter.complaints`: a line for each directive of a filter that is passed over.
-/

namespace CoinRelay.LogFilter

open Text

/-- What is wrong with a directive. -/
inductive Fault
  | form
  | field (cause : Pattern.Fault)
  | level
  deriving DecidableEq, Repr

/-- The text of a fault. -/
def Fault.message : Fault → String
  | form => "invalid filter directive"
  | field cause => s!"invalid field filter: {cause.message}"
  | level =>
    "error parsing level filter: expected one of \"off\", \"error\", \"warn\", \"info\", \"debug\", \"trace\", " ++
      "or a number 0-5"

/-- The names of levels. -/
def levels : List String := ["off", "error", "warn", "info", "debug", "trace"]

/-- Whether a text names a level, or counts up to one. -/
def isLevel (s : String) : Bool :=
  s.isEmpty || s.toLower ∈ levels || (Numeral.natural 5 s).isOk

/-! ## Stages -/

/-- The part of a directive that is read. -/
inductive Stage
  | name
  | span
  | field
  | fields
  | closed
  | level
  deriving DecidableEq, Repr

/-- Whether a directive may start with the name that a character starts. -/
def isNameStart (c : Char) : Bool := c ∈ ['-', ':', '_'] || isAlphanumeric c

/-- The stage after a character. -/
def Stage.after? (c : Char) : Stage → Option Stage
  | name => some (if c = '=' then level else if c = '[' then span else name)
  | span => some (if c = ']' then closed else if c = '\x7b' then field else span)
  | field => some (if c = '\x7d' then fields else field)
  | fields => if c = ']' then some closed else none
  | closed => if c = '=' then some level else none
  | level => some level

/-! ## Directives -/

/-- A step of reading, which may find a fault or a cut that cannot be made. -/
abbrev Reading := ExceptT Fault (Except CutFault)

/-- The part of a directive from one index up to another. -/
def part (directive : String) (first last : Nat) : Reading String :=
  ExceptT.lift ((between first last directive.toList).map String.ofList)

/-- Reads the part of a stage that ends. -/
def Stage.close (directive : String) (first last : Nat) : Stage → Reading Unit
  | name | span => do
    let _ ← part directive first last
  | field => do
    let field ← part directive first last
    if field.isEmpty then throw .form
    if let some cause := Field.fault? field then throw (.field cause)
  | fields | closed | level => return

/-- Reads the part at the end of a directive. -/
def Stage.finish (directive : String) (first : Nat) : Stage → Reading Unit
  | name | closed => return
  | level => do
    unless isLevel (← part directive first directive.utf8ByteSize) do throw .level
  | span | field | fields => throw .form

/-- Reads characters in a stage, where `first` octets stand before the part of the stage and `index` before the
characters. -/
def scan (directive : String) (stage : Stage) (first index : Nat) : List Char → Reading Unit
  | [] => stage.finish directive first
  | c :: cs => do
    let some next := stage.after? c | throw .form
    let behind := index + c.utf8Size
    if next = stage then scan directive stage first behind cs
    else
      stage.close directive first index
      scan directive next behind behind cs

/-- Reads a directive. -/
def read (directive : String) : Reading Unit :=
  match trim directive.toList with
  | [] => throw .form
  | '[' :: cs => scan directive .span 1 1 cs
  | c :: cs => if isNameStart c then scan directive .name 0 c.utf8Size cs else throw .form

/-! ## Filters -/

/-- What is said of a directive that is passed over. -/
def complaint (directive : String) (fault : Fault) : String :=
  "ignoring " ++ "\x60" ++ directive ++ "\x60" ++ ": " ++ fault.message

/-- A line for each directive that is passed over. -/
def complaints (filter : String) : Except CutFault (List String) :=
  ((filter.splitOn ",").filter (!·.isEmpty)).foldlM (fun lines directive => do
    match ← (read directive).run with
    | .ok _ => return lines
    | .error fault => return lines ++ [complaint directive fault]) []

end CoinRelay.LogFilter
