import CoinRelay.Text.Numeral

/-!
# Values of options

Numbers and rates of contacts as they are given to a program, or why they are refused.

- `Values.natural`, `Values.between`: a number of 64 bits, and one between two bounds;
- `Values.contact`: a name and a rate with an equals sign between them.
-/

namespace CoinRelay.Values

/-- The largest number of 64 bits. -/
def maxWord : Nat := UInt64.size - 1

/-- A number of 64 bits. -/
def natural (value : String) : Except String Nat :=
  (Numeral.natural maxWord value).mapError (·.message)

/-- A number between two bounds. -/
def between (min max : Int) (value : String) : Except String Int := do
  let n ← (Numeral.integer (maxWord / 2 + 1) (maxWord / 2) value).mapError (·.message)
  if min ≤ n ∧ n ≤ max then return n else throw s!"{n} is not in {min}..={max}"

/-- The name and the rate of a contact. -/
def contact (value : String) : Except String (String × UInt32) :=
  let name := String.ofList (value.toList.takeWhile (· ≠ '='))
  match value.toList.dropWhile (· ≠ '=') with
  | [] => .error s!"expected name=rate, got '{value}'"
  | _ :: rate =>
    let rate := String.ofList rate
    if name.isEmpty then .error "contact name must not be empty"
    else
      match Numeral.natural (UInt32.size - 1) rate with
      | .ok n => .ok (name, UInt32.ofNat n)
      | .error fault => .error s!"invalid rate '{rate}': {fault.message}"

end CoinRelay.Values
