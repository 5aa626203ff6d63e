import CoinRelay.Octets

/-!
# Control sequences of terminals

A terminal takes some characters as orders: what follows an escape character, up to the end of the sequence that it
opens, and most of the control characters. `Control.strip` drops them and keeps what a terminal shows.

- `Stage.next`: the sequence that the characters so far have opened;
- `Stage.shows`: whether a character is shown there.
-/

namespace CoinRelay.Control

/-- The sequence that is open, and how far it was read. -/
inductive Stage
  | ground
  | escape
  | escapeIntermediate
  | csiEntry
  | csiParameter
  | csiIntermediate
  | csiIgnored
  | dcsEntry
  | dcsParameter
  | dcsIntermediate
  | dcsIgnored
  | dcsText
  | systemCommand
  | privateText
  deriving DecidableEq, Repr

/-- Whether a character has a number from `first` to `last`. -/
def lies (first last : Nat) (c : Char) : Bool := first ≤ c.toNat && c.toNat ≤ last

/-- Whether the UTF-8 form of a character has the octet in it that ends a string. -/
def hasTerminator (c : Char) : Bool := (0x9C : UInt8) ∈ Octets.ofText (String.singleton c)

namespace Stage

/-- The stage after a character other than those that end or open a sequence anywhere. -/
def inside (c : Char) : Stage → Stage
  | ground => ground
  | escape =>
    match c with
    | '[' => csiEntry
    | ']' => systemCommand
    | 'P' => dcsEntry
    | 'X' | '^' | '_' => privateText
    | c => if lies 0x20 0x2F c then escapeIntermediate else if lies 0x30 0x7E c then ground else escape
  | escapeIntermediate => if lies 0x30 0x7E c then ground else escapeIntermediate
  | csiEntry =>
    if lies 0x20 0x2F c then csiIntermediate
    else if lies 0x30 0x3F c then csiParameter
    else if lies 0x40 0x7E c then ground
    else csiEntry
  | csiParameter =>
    if lies 0x20 0x2F c then csiIntermediate
    else if lies 0x3C 0x3F c then csiIgnored
    else if lies 0x40 0x7E c then ground
    else csiParameter
  | csiIntermediate =>
    if lies 0x30 0x3F c then csiIgnored else if lies 0x40 0x7E c then ground else csiIntermediate
  | csiIgnored => if lies 0x40 0x7E c then ground else csiIgnored
  | dcsEntry =>
    if lies 0x20 0x2F c then dcsIntermediate
    else if lies 0x30 0x3F c then dcsParameter
    else if lies 0x40 0x7E c then dcsText
    else dcsEntry
  | dcsParameter =>
    if lies 0x20 0x2F c then dcsIntermediate
    else if lies 0x3C 0x3F c then dcsIgnored
    else if lies 0x40 0x7E c then dcsText
    else dcsParameter
  | dcsIntermediate =>
    if lies 0x30 0x3F c then dcsIgnored else if lies 0x40 0x7E c then dcsText else dcsIntermediate
  | dcsIgnored => if hasTerminator c then ground else dcsIgnored
  | dcsText => if hasTerminator c then ground else dcsText
  | systemCommand => if c = '\x07' then ground else systemCommand
  | privateText => if hasTerminator c then ground else privateText

/-- The stage after a character. -/
def next (c : Char) (s : Stage) : Stage :=
  if c = '\x18' || c = '\x1a' then ground else if c = '\x1b' then escape else s.inside c

/-- Whether blanks that are control characters take effect at once. -/
def keepsBlanks : Stage → Bool
  | ground | escape | escapeIntermediate | csiEntry | csiParameter | csiIntermediate | csiIgnored => true
  | dcsEntry | dcsParameter | dcsIntermediate | dcsIgnored | dcsText | systemCommand | privateText => false

/-- Whether a character is shown. -/
def shows (c : Char) (s : Stage) : Bool :=
  (s == ground && (lies 0x20 0x7E c || 0x80 ≤ c.toNat)) || (s.keepsBlanks && c ∈ ['\t', '\n', '\x0c', '\r'])

end Stage

/-- The characters that are shown. Where the one before was shown, no sequence is open; but a blank does not close the
one around it, which goes on at the next character that is not shown. -/
def stripFrom (isShowing : Bool) (stage : Stage) : List Char → List Char
  | [] => []
  | c :: cs =>
    if (if isShowing then .ground else stage).shows c then
      c :: stripFrom true (if 0x80 ≤ c.toNat then .ground else stage) cs
    else stripFrom false (stage.next c) cs

/-- What a terminal shows of a text. -/
def strip (s : String) : String := String.ofList (stripFrom false .ground s.toList)

end CoinRelay.Control
