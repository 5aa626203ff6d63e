import CoinRelay.Activity.Session
import CoinRelay.Endpoint.Dial

/-!
# Launching a client

What a client is told before it starts, and what has to be in place for it to start: a user name, a mint that passes
its test, a sealer for secrets, and a broker that can be reached, in this order.

- `Profile`: what a client is told;
- `Profile.launch`: the client and the broker's address, or the first thing that is missing.
-/

namespace CoinRelay

open Crypto

/-- What a client is told: its broker and user, the rates assumed of contacts, the conditions of the device, the pauses
of its activities, the milliseconds that a call may take, and the room for public coins. -/
structure Profile where
  server : String := "127.0.0.1:4433"
  user : String := ""
  baseline : List (String × UInt32) := []
  device : Device := {}
  timing : Timing := {}
  callTimeout : Nat := 2 * 1000
  ceiling : Nat := defaultCeiling
  deriving DecidableEq, Repr

/-- Why a client cannot start. -/
inductive LaunchError
  | badSettings (reason : String)
  | crypto (cause : CryptoError)
  | dial (cause : DialError)
  deriving DecidableEq, Repr

/-- The text of a cause. -/
def LaunchError.message : LaunchError → String
  | badSettings reason => s!"configuration error: {reason}"
  | crypto cause => s!"crypto error: {cause.message}"
  | dial cause => s!"transport error: {cause.message}"

/-- What a client draws on: a source of key pairs, a sealer unless there is no key for one, and a network. -/
structure Means where
  attempts : Supply KeyAttempt
  sealer : Except CryptoError Sealer
  network : Network

/-- The client of a profile and the address of its broker. -/
def Profile.launch (means : Means) (p : Profile) : Except LaunchError (Client × Address) :=
  if p.user.isEmpty then .error (.badSettings "user must not be empty")
  else do
    let mint ← (KeyMint.start means.attempts).mapError .crypto
    let sealer ← means.sealer.mapError .crypto
    let address ← (means.network.dial p.server).mapError .dial
    return ({ user := p.user, mint, inventory := .empty p.ceiling sealer }, address)

end CoinRelay
