/-!
# Durations as text

A duration of whole milliseconds is written in seconds, or in milliseconds when it is less than one, with no more
decimal places than it needs.
-/

namespace CoinRelay.Text

/-- The decimal places of thousandths, without zeros at the end. -/
def thousandths (n : Nat) : String :=
  let digits := [n / 100 % 10, n / 10 % 10, n % 10].map Nat.digitChar
  let kept := (digits.reverse.dropWhile (· == '0')).reverse
  if kept.isEmpty then "" else "." ++ String.ofList kept

/-- The text of a duration in milliseconds. -/
def duration (millis : Nat) : String :=
  if 1000 ≤ millis then s!"{millis / 1000}{thousandths (millis % 1000)}s"
  else if millis = 0 then "0ns"
  else s!"{millis}ms"

end CoinRelay.Text
