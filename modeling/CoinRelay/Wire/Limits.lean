/-!
# Constants of the wire

- `protocolName`: what connections are opened for;
- `maxPayload`: the longest body of a frame;
- `mailboxBudget`: what is left of it for the packets of one reply, once the longest list head is set aside.
-/

namespace CoinRelay.Wire

/-- The name by which both ends of a connection know that they speak of coins and packets. -/
def protocolName : String := "aqm"

/-- The length of a frame's header. -/
def headerSize : Nat := 12

/-- The longest body of a frame, in octets. -/
def maxPayload : Nat := 4 * 1024 * 1024

/-- The longest head of a list. -/
def maxListHead : Nat := 9

/-- The octets of a mailbox reply that packets may fill. -/
def mailboxBudget : Nat := maxPayload - maxListHead

end CoinRelay.Wire
