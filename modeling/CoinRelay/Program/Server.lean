import CoinRelay.Program.Exit
import CoinRelay.Program.Values

/-!
# The server program

- `ServerProgram.program`: its options;
- `ServerProgram.run`: the listener that arguments ask for, or how the program ends before there is one.
-/

namespace CoinRelay.ServerProgram

open Options

/-- What the server program is told. -/
structure Settings where
  config : Listener.Config := {}
  staleAfterDays : Nat := 0
  logFilter : String := ""
  deriving DecidableEq, Repr

/-- The server program. Purges are at least a second apart. -/
def program : Program Settings where
  name := "aqm-server"
  version := "0.1.0"
  about := "One-time coin broker: inventories and mailboxes"
  own :=
    [{ long := "bind", short := some 'b', placeholder := "BIND", standard := some "0.0.0.0:4433"
       about := "Address to bind to"
       action := .store fun address s => .ok { s with config.address := address } },
     { long := "cert", short := some 'c', placeholder := "CERT"
       about := "Path to TLS certificate (PEM format)"
       action := .store fun file s => .ok { s with config.certificate := some file } },
     { long := "key", short := some 'k', placeholder := "KEY"
       about := "Path to TLS private key (PEM format)"
       action := .store fun file s => .ok { s with config.key := some file } },
     { long := "single-use"
       about := "Remove a coin from the inventory when it is dispensed"
       action := .raise fun s => { s with config.broker.dispense := .singleUse } },
     { long := "stale-after-days", placeholder := "STALE_AFTER_DAYS", standard := some "30"
       about := "Days after which never-dispensed coins are purged"
       action := .store fun value s => do return { s with staleAfterDays := ← Values.natural value } },
     { long := "purge-interval-secs", placeholder := "PURGE_INTERVAL_SECS", standard := some "3600"
       about := "Seconds between stale coin purges"
       action := .store fun value s => do return { s with config.purgePause := max (← Values.natural value) 1 } },
     { long := "log-level", placeholder := "LOG_LEVEL", standard := some "info"
       about := "Log level (trace, debug, info, warn, error)"
       action := .store fun logFilter s => .ok { s with logFilter } }]

/-- The seconds of days, if 64 bits hold them. -/
def secondsOfDays? (days : Nat) : Option Nat :=
  let seconds := days * (24 * 60 * 60)
  if seconds ≤ Values.maxWord then some seconds else none

/-- The listener that arguments ask for, or how the program ends. -/
def run (machine : Machine) (clock : Clock) (arguments : List String) : Except Exit (Settings × Listener) := do
  let settings ← (program.settings {} arguments).mapError (Exit.ofEnding program)
  let complaints ← (LogFilter.complaints settings.logFilter).mapError Exit.ofCut
  let some seconds := secondsOfDays? settings.staleAfterDays | throw Exit.overflow
  let settings := { settings with config.broker.staleAfter := seconds * 1000 }
  let listener ← (Listener.bind machine clock settings.config).mapError fun e => Exit.ofCause complaints e.detail
  return (settings, listener)

end CoinRelay.ServerProgram
