import CoinRelay.Tier

/-!
# Device conditions

Battery and network decide whether coins are minted and fetched at all, and which tier is spent on a message.
-/

namespace CoinRelay

/-- The conditions that a device reports. -/
structure Device where
  battery : UInt8 := 100
  wifi : Bool := true
  signalDbm : Int16 := -70
  deriving DecidableEq, Repr

namespace Device

/-- Whether there is power and bandwidth to spare. -/
def isIdeal (d : Device) : Bool := 20 < d.battery && d.wifi

/-- The tier to spend on a message. -/
def tier (d : Device) : Tier :=
  if d.battery < 5 then .bronze
  else if !d.wifi then
    if d.signalDbm < -100 then .bronze else .silver
  else if d.battery < 20 then .bronze
  else if d.battery < 50 then .silver
  else .gold

end Device

end CoinRelay
