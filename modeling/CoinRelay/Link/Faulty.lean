import CoinRelay.Link.Direct

/-!
# Links that fail

A broker behind a link that can be told to fail, to lose answers or to hand out coins of its own. It serves to rehearse
what a client does when its broker is out of reach or not to be trusted.

- `Link.Fault`: the ways to fail;
- `Link.Faulty`: a broker and the present way to fail;
- `Link.faulty`: the link.
-/

namespace CoinRelay.Link

open Wire

/-- A way to fail. The last four concern fetches alone. -/
inductive Fault
  | none
  | down
  | rejected
  | protocol
  | flaky
  | lostAck
  | empty
  | fresh
  | wrongOwner
  | wrongTier
  deriving DecidableEq, Repr

/-- A broker behind a link that fails, with the number of calls so far and of coins that the link made up. -/
structure Faulty where
  broker : Broker
  fault : Fault := .none
  calls : Nat := 0
  forged : Nat := 0

namespace Faulty

variable {α : Type}

/-- Makes a call the way that the present fault has it. -/
def call (make : Broker → Except LinkError α × Broker) (s : Faulty) : Except LinkError α × Faulty :=
  let index := s.calls
  let s := { s with calls := index + 1 }
  let through : Except LinkError α × Faulty :=
    let (result, broker) := make s.broker
    (result, { s with broker })
  match s.fault with
  | .down => (.error (.transport "connection refused"), s)
  | .rejected => (.error (.rejected 1 "no"), s)
  | .protocol => (.error (.protocol "unexpected response NotFound"), s)
  | .flaky => if index % 2 = 1 then (.error (.transport "connection reset"), s) else through
  | .lostAck =>
    match through with
    | (.error e, s) => (.error e, s)
    | (.ok _, s) => (.error (.transport "request timed out"), s)
  | _ => through

/-- A coin that no one published. -/
def forge (owner : String) (tier : Tier) (s : Faulty) : Except LinkError (Option Coin) × Faulty :=
  let coin : Coin :=
    { owner, keyId := ⟨UInt64.ofNat s.forged⟩, tier, publicKey := "abababababababab", signature := "cdcdcdcdcdcdcdcd" }
  (.ok (some coin), { s with calls := s.calls + 1, forged := s.forged + 1 })

/-- The tier after a tier, in a circle. -/
def nextTier : Tier → Tier
  | .gold => .silver
  | .silver => .bronze
  | .bronze => .gold

/-- Fetches a coin, or what the present fault gives for one. -/
def fetch (user : String) (tier : Tier) (s : Faulty) : Except LinkError (Option Coin) × Faulty :=
  match s.fault with
  | .empty => (.ok Option.none, { s with calls := s.calls + 1 })
  | .fresh => s.forge user tier
  | .wrongOwner => s.forge "mallory" tier
  | .wrongTier => s.forge user (nextTier tier)
  | _ => s.call (direct.fetch user tier)

end Faulty

/-- Calls a broker with the present fault. -/
def faulty : Link Faulty where
  publish coins := Faulty.call (direct.publish coins)
  fetch user tier := Faulty.fetch user tier
  send packet := Faulty.call (direct.send packet)
  drain user := Faulty.call (direct.drain user)
  count user := Faulty.call (direct.count user)

end CoinRelay.Link
