import CoinRelay.Wire.Message

/-!
# Links to a broker

A link makes the five calls that a client has on a broker, over a state of any kind: the broker itself, a framed
connection to it, or one that fails. That nothing was found is an answer and never an error.

- `LinkError`: why a call failed;
- `Link`: the calls, as functions of the state;
- `Link.logged`: a link that keeps an account of its calls.
-/

namespace CoinRelay

open Wire

/-- Why a call on a broker failed. -/
inductive LinkError
  | transport (reason : String)
  | rejected (code : UInt16) (message : String)
  | protocol (reason : String)
  deriving DecidableEq, Repr

/-- The text of a failure. -/
def LinkError.message : LinkError → String
  | transport reason => s!"transport failure: {reason}"
  | rejected code message => s!"broker rejected request ({code.toNat}): {message}"
  | protocol reason => s!"protocol violation: {reason}"

/-- The five calls on a broker, each with its answer and the state it leaves. -/
structure Link (σ : Type) where
  publish : List Coin → σ → Except LinkError PublishAck × σ
  fetch : String → Tier → σ → Except LinkError (Option Coin) × σ
  send : Packet → σ → Except LinkError Unit × σ
  drain : String → σ → Except LinkError (List Packet) × σ
  count : String → σ → Except LinkError Tier.Counts × σ

namespace Link

variable {σ : Type}

/-! ## Accounts -/

/-- A call that was made. -/
inductive Call
  | publish (coins : List Coin)
  | fetch (user : String) (tier : Tier)
  | send (packet : Packet)
  | drain (user : String)
  | count (user : String)
  deriving DecidableEq, Repr

/-- A call in one line. -/
def Call.text : Call → String
  | publish coins => s!"publish {coins.length}"
  | fetch user tier => s!"fetch {user} {tier.name}"
  | send packet => s!"send {packet.recipient} {packet.keyId.text}"
  | drain user => s!"drain {user}"
  | count user => s!"count {user}"

/-- A state with the calls made on it, the last first. -/
abbrev Logged (σ : Type) := List Call × σ

/-- Enters a call and makes it. -/
def entering {α : Type} (call : Call) (make : σ → α × σ) : Logged σ → α × Logged σ := fun (calls, s) =>
  let (a, s) := make s
  (a, (call :: calls, s))

/-- A link that enters every call before it makes it. -/
def logged (l : Link σ) : Link (Logged σ) where
  publish coins := entering (.publish coins) (l.publish coins)
  fetch user tier := entering (.fetch user tier) (l.fetch user tier)
  send packet := entering (.send packet) (l.send packet)
  drain user := entering (.drain user) (l.drain user)
  count user := entering (.count user) (l.count user)

end Link

end CoinRelay
