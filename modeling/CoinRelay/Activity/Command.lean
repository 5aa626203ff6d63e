import CoinRelay.Text.Blank

/-!
# Console lines

A line is `exit`, a message written as recipient, colon and text, or nothing of note. Blanks around the recipient and
one space before the text are dropped, and so are the ends of lines.

- `Command.parse`: what a line says.
-/

namespace CoinRelay

/-- What a console line says. -/
inductive Command
  | send (recipient text : String)
  | exit
  | ignored
  deriving DecidableEq, Repr

namespace Command

open Text

/-- The characters that end lines. -/
def isLineEnd (c : Char) : Bool := c = '\r' || c = '\n'

/-- The characters before the first colon and those after it. -/
def splitColon? (cs : List Char) : Option (List Char × List Char) :=
  match cs.dropWhile (· ≠ ':') with
  | [] => none
  | _ :: after => some (cs.takeWhile (· ≠ ':'), after)

/-- Drops one space off the front. -/
def dropSpace : List Char → List Char
  | ' ' :: cs => cs
  | cs => cs

/-- What a line says. -/
def parse (line : String) : Command :=
  let cs := dropEndWhile isLineEnd line.toList
  if trim cs = "exit".toList then exit
  else
    match splitColon? cs with
    | none => ignored
    | some (before, after) =>
      let recipient := trim before
      if recipient.isEmpty then ignored else send (String.ofList recipient) (String.ofList (dropSpace after))

end Command

end CoinRelay
