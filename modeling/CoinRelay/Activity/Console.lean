import CoinRelay.Octets

/-!
# Console input

Octets arrive in pieces and are read as lines. A line ends with a line feed, the last one with the end of input. A line
that is not UTF-8 ends the input as well.

- `Console.read`: the lines that can be read, whether input is over after them, and what is left.
-/

namespace CoinRelay

/-- The octets that were typed and not read yet, and whether that was all. -/
structure Console where
  typed : Octets := []
  ended : Bool := false
  deriving DecidableEq, Repr

namespace Console

/-- The octet that ends a line. -/
def lineFeed : UInt8 := 10

/-- The octets between line feeds, before the first and behind the last. -/
def segments (o : Octets) : List Octets :=
  o.foldr
    (fun b segments =>
      match segments with
      | segment :: others => if b = lineFeed then [] :: segment :: others else (b :: segment) :: others
      | [] => [])
    [[]]

/-- Types octets, unless that was all. -/
def type (o : Octets) (c : Console) : Console :=
  if c.ended then c else { c with typed := c.typed ++ o }

/-- The whole lines, and the octets behind them. What is there at the end is a line of its own. -/
def cut (c : Console) : List Octets × Octets :=
  let all := segments c.typed
  let last := all.getLast?.getD []
  if c.ended && !last.isEmpty then (all, []) else (all.dropLast, last)

/-- The lines up to the first that is not UTF-8, whether input is over after them, and what is left of it. -/
def read (c : Console) : List String × Bool × Console :=
  let (lines, rest) := c.cut
  let texts := (lines.map Octets.text?).takeWhile Option.isSome |>.filterMap id
  (texts, c.ended || texts.length < lines.length, { c with typed := rest })

end Console

end CoinRelay
