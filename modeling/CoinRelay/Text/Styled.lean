/-!
# Styled text

Texts of which some parts stand out on a terminal, which takes a style and its end from control sequences.

- `Styled.text`: the text without its styles; `Styled.sequences`: the text with what a terminal takes them from.
-/

namespace CoinRelay

/-- How a part of a text stands out. -/
inductive Style
  | plain
  | title
  | refused
  | wanted
  | literal
  deriving DecidableEq, Repr

/-- The control sequence from which on a style holds. -/
def Style.opening : Style → String
  | plain => ""
  | title => "\x1b[1m\x1b[31m"
  | refused => "\x1b[33m"
  | wanted => "\x1b[32m"
  | literal => "\x1b[1m"

/-- The control sequence that ends a style. -/
def Style.closing (s : Style) : String := if s = .plain then "" else "\x1b[0m"

/-- A text in parts, each with its style. -/
abbrev Styled := List (Style × String)

namespace Styled

/-- The text alone. -/
def text (parts : Styled) : String := "".intercalate (parts.map Prod.snd)

/-- The text with the control sequences of its styles. -/
def sequences (parts : Styled) : String :=
  "".intercalate (parts.map fun (style, text) => style.opening ++ text ++ style.closing)

end Styled

end CoinRelay
