import CoinRelay.Program.Exit
import CoinRelay.Program.Values

/-!
# The client program

- `ClientProgram.program`: its options;
- `ClientProgram.run`: the client and the address of its broker, or how the program ends before there is one.
-/

namespace CoinRelay.ClientProgram

open Options

/-- What the client program is told. -/
structure Settings where
  profile : Profile := {}
  logFilter : String := ""
  deriving DecidableEq, Repr

/-- Changes the profile by a value that is read. -/
def onProfile {α : Type} (read : String → Except String α) (change : α → Profile → Profile) (value : String)
    (s : Settings) : Except String Settings := do
  return { s with profile := change (← read value) s.profile }

/-- The client program. Pauses last at least a second, calls may take at least a millisecond, and a battery holds no
more than everything. -/
def program : Program Settings where
  name := "aqm-client"
  version := "0.1.0"
  about := "One-time coin messaging client"
  own :=
    [{ long := "server", short := some 's', placeholder := "SERVER", standard := some "127.0.0.1:4433"
       about := "Broker address"
       action := .store (onProfile .ok fun server p => { p with server }) },
     { long := "user", short := some 'u', placeholder := "USER", isRequired := true
       about := "Our identity"
       action := .store (onProfile .ok fun user p => { p with user }) },
     { long := "contact", placeholder := "CONTACTS"
       about := "Contact with an assumed per-cycle message rate, as \x60name=rate\x60"
       action := .append (onProfile Values.contact fun contact p => { p with baseline := p.baseline ++ [contact] }) },
     { long := "maintenance-secs", placeholder := "MAINTENANCE_SECS", standard := some "30"
       about := "Seconds between maintenance cycles"
       action := .store (onProfile Values.natural fun n p =>
         { p with timing := { p.timing with maintenance := max n 1 * 1000 } }) },
     { long := "listener-secs", placeholder := "LISTENER_SECS", standard := some "2"
       about := "Seconds between mailbox checks"
       action := .store (onProfile Values.natural fun n p =>
         { p with timing := { p.timing with listener := max n 1 * 1000 } }) },
     { long := "timeout-ms", placeholder := "TIMEOUT_MS", standard := some "2000"
       about := "Milliseconds allowed for one broker call"
       action := .store (onProfile Values.natural fun n p => { p with callTimeout := max n 1 }) },
     { long := "battery", placeholder := "BATTERY", standard := some "100"
       about := "Battery charge reported to the device oracle (0-100)"
       action := .store (onProfile (Values.between 0 255) fun n p =>
         { p with device := { p.device with battery := UInt8.ofNat (min n.toNat 100) } }) },
     { long := "cellular"
       about := "Report a cellular connection instead of wifi"
       action := .raise fun s => { s with profile.device.wifi := false } },
     { long := "signal-dbm", placeholder := "SIGNAL_DBM", standard := some "-70", takesDashes := true
       about := "Cellular signal strength in dBm"
       action := .store (onProfile (Values.between (-32768) 32767) fun n p =>
         { p with device := { p.device with signalDbm := Int16.ofInt n } }) },
     { long := "log-level", placeholder := "LOG_LEVEL", standard := some "info"
       about := "Log level (trace, debug, info, warn, error)"
       action := .store fun logFilter s => .ok { s with logFilter } }]

/-- The client that arguments ask for and the address of its broker, or how the program ends. -/
def run (means : Means) (arguments : List String) : Except Exit (Settings × Client × Address) := do
  let settings ← (program.settings {} arguments).mapError (Exit.ofEnding program)
  let complaints ← (LogFilter.complaints settings.logFilter).mapError Exit.ofCut
  let (client, address) ← (settings.profile.launch means).mapError fun e => Exit.ofCause complaints e.detail
  return (settings, client, address)

end CoinRelay.ClientProgram
