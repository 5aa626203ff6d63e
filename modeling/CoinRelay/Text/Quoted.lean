import CoinRelay.Text.Hidden

/-!
# Quoted text

A text between quotation marks, in which marks, backslashes and hidden characters are escaped.

- `Quoted.encode`: the quoted form of a text; `Quoted.character`: that of a character, between apostrophes.
-/

namespace CoinRelay.Quoted

/-- The number of a character in hexadecimal, as an escape. -/
def numbered (c : Char) : List Char :=
  ['\\', 'u', '\x7b'] ++ Nat.toDigits 16 c.toNat ++ ['\x7d']

/-- A character as it stands in quoted text. -/
def escape (c : Char) : List Char :=
  match c with
  | '"' => ['\\', '"']
  | '\\' => ['\\', '\\']
  | '\n' => ['\\', 'n']
  | '\r' => ['\\', 'r']
  | '\t' => ['\\', 't']
  | '\x00' => ['\\', '0']
  | c => if Text.isHidden c then numbered c else [c]

/-- The quoted form of a text. -/
def encode (s : String) : String :=
  String.ofList ('"' :: s.toList.flatMap escape ++ ['"'])

/-- The quoted form of a character. Of the two kinds of marks, the one around it is escaped. -/
def character (c : Char) : String :=
  let inner :=
    match c with
    | '\x27' => ['\\', '\x27']
    | '"' => ['"']
    | c => escape c
  String.ofList ('\x27' :: inner ++ ['\x27'])

end CoinRelay.Quoted
