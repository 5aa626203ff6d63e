import CoinRelay.Octets
import Std.Data.ExtTreeMap

/-!
# Interaction rates

Counts the messages sent to each contact. The rate of a contact in a period is its baseline and the messages of the
period together, as far as 32 bits go.

- `Tracker.setBaseline`, `Tracker.record`: what changes the rates;
- `Tracker.snapshot`: the rates of the period, by user, and the start of the next period.
-/

namespace CoinRelay

/-- A sum that stays at the largest 32-bit number once it gets there. -/
def saturatingAdd (a b : UInt32) : UInt32 := UInt32.ofNat (min (a.toNat + b.toNat) (UInt32.size - 1))

/-- The baselines, and the messages of the present period. -/
structure Tracker where
  baseline : Std.ExtTreeMap String UInt32 := ∅
  window : Std.ExtTreeMap String UInt32 := ∅

namespace Tracker

/-- Sets the rate that a user has without any messages. -/
def setBaseline (user : String) (rate : UInt32) (t : Tracker) : Tracker :=
  { t with baseline := t.baseline.insert user rate }

/-- A tracker with baselines, later ones in place of earlier ones. -/
def ofBaseline (rates : List (String × UInt32)) : Tracker :=
  rates.foldl (fun t (user, rate) => t.setBaseline user rate) {}

/-- Counts a message to a user. -/
def record (user : String) (t : Tracker) : Tracker :=
  { t with window := t.window.insert user (saturatingAdd (t.window.getD user 0) 1) }

/-- Adds the messages to a user to the rates. -/
def addSent (rates : Std.ExtTreeMap String UInt32) (sent : String × UInt32) : Std.ExtTreeMap String UInt32 :=
  rates.insert sent.1 (saturatingAdd (rates.getD sent.1 0) sent.2)

/-- The rates of the period in the order of the users, and the tracker of the next period. -/
def snapshot (t : Tracker) : List (String × UInt32) × Tracker :=
  ((t.window.toList.foldl addSent t.baseline).toList, { t with window := ∅ })

end Tracker

end CoinRelay
