import CoinRelay.Endpoint.Address
import CoinRelay.Link.Direct

/-!
# Dialling a broker

A client reaches a broker by address, over a network that may or may not let it through. What a connection does from
then on is `Link.framed`.

- `Network`: what becomes of the handshake with an address;
- `Network.dial`: the address that was reached, or why none was.
-/

namespace CoinRelay

/-- Why a broker cannot be reached. -/
inductive DialError
  | badSettings (reason : String)
  | unreachable (reason : String)
  deriving DecidableEq, Repr

/-- The text of a cause. -/
def DialError.message : DialError → String
  | badSettings reason => s!"configuration error: {reason}"
  | unreachable reason => s!"connection failed: {reason}"

/-- What becomes of the handshake with an address: nothing if it succeeds, or why it does not. -/
structure Network where
  handshake : Address → Except String Unit

namespace Network

/-- A network on which nothing arrives, so that every handshake runs out of time. -/
def silent : Network := ⟨fun _ => .error "timed out"⟩

/-- A network on which every handshake succeeds. -/
def clear : Network := ⟨fun _ => .ok ()⟩

/-- Reaches the broker at an address. -/
def dial (n : Network) (server : String) : Except DialError Address :=
  match Address.parse? server with
  | none => .error (.badSettings s!"invalid address: {Address.syntaxFault}")
  | some address =>
    match n.handshake address with
    | .error reason => .error (.unreachable s!"handshake failed: {reason}")
    | .ok () => .ok address

end Network

end CoinRelay
