import CoinRelay.Activity.Launch
import CoinRelay.Endpoint.Listener
import CoinRelay.Options.Help
import CoinRelay.Options.LogFilter.Basic
import CoinRelay.Options.Reading
import CoinRelay.Text.Control
import CoinRelay.Text.Quoted

/-!
# How programs end

A program that was asked for its help or version ends well; one that was told what it does not understand, or cannot
start, says why. Causes are written with their parts quoted.

- `Exit`: a code and a text;
- `Exit.ofEnding`, `Exit.ofCut`, `Exit.ofCause`: the exits that arguments, log filters and failures lead to.
-/

namespace CoinRelay

/-- The code and the text that a program ends with. -/
structure Exit where
  code : Nat
  text : String
  deriving DecidableEq, Repr

/-! ## Causes in detail -/

/-- A cause with its reason. -/
def detail (cause reason : String) : String := s!"{cause}({reason})"

/-- A fault of keys or secrets with its parts. -/
def CryptoError.detail : CryptoError → String
  | initFailed reason => CoinRelay.detail "InitFailed" (Quoted.encode reason)
  | keygenFailed tier reason =>
    "KeygenFailed \x7b tier: " ++ tier.title ++ ", reason: " ++ Quoted.encode reason ++ " \x7d"
  | rng reason => CoinRelay.detail "Rng" (Quoted.encode reason)
  | sealFailed => "SealFailed"
  | openFailed => "OpenFailed"

/-- A failure to reach a broker with its reason. -/
def DialError.detail : DialError → String
  | badSettings reason => CoinRelay.detail "Config" (Quoted.encode reason)
  | unreachable reason => CoinRelay.detail "Connection" (Quoted.encode reason)

/-- A failure to start a client with its parts. -/
def LaunchError.detail : LaunchError → String
  | badSettings reason => CoinRelay.detail "Config" (Quoted.encode reason)
  | crypto cause => CoinRelay.detail "Crypto" cause.detail
  | dial cause => CoinRelay.detail "Transport" cause.detail

/-- A failure of a server with its reason. -/
def ServerError.detail : ServerError → String
  | badSettings reason => CoinRelay.detail "Config" (Quoted.encode reason)
  | transport reason => CoinRelay.detail "Transport" (Quoted.encode reason)
  | protocol cause => CoinRelay.detail "Protocol" (Quoted.encode cause.message)

/-! ## Exits -/

namespace Exit

/-- The end of a program whose arguments do not lead to settings. Of what is wrong with them, only that is said which a
terminal would show. -/
def ofEnding {σ : Type} (p : Options.Program σ) : Options.Ending → Exit
  | .help => { code := 0, text := p.helpText }
  | .version => { code := 0, text := p.versionText }
  | .fault cause => { code := 2, text := Control.strip cause.report.sequences }

/-- The end of a program that cannot start, after what it says of its log filter. -/
def ofCause (complaints : List String) (cause : String) : Exit where
  code := 1
  text := "\n".intercalate (complaints ++ [s!"Error: {cause}"])

/-- The end of a program whose log filter cannot be cut into its parts. -/
def ofCut (fault : Text.CutFault) : Exit := { code := 101, text := fault.message }

/-- The end of a program at a product that does not fit its type. -/
def overflow : Exit := { code := 101, text := "attempt to multiply with overflow" }

end Exit

end CoinRelay
