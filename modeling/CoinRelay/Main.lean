import CoinRelay.Program.Client
import CoinRelay.Program.Server

/-!
# The command line

The first argument says which program to run, `client` or `server`; the others are the program's own. This machine's
side of a program is here and nowhere else: files, random octets and the standard streams.
-/

namespace CoinRelay.CommandLine

open Crypto

/-- Ends with an exit. A program that ends well writes to the standard output. -/
def leave (e : Exit) : IO UInt32 := do
  if e.code = 0 then IO.println e.text else IO.eprintln e.text
  return UInt32.ofNat e.code

/-- The reason why a file cannot be read. -/
def reasonOf : IO.Error → FileError
  | .noFileOrDirectory .. => .missing
  | .permissionDenied .. => .denied
  | .inappropriateType _ code _ => if code = 21 then .isDirectory else .notDirectory
  | e => .other (toString e)

/-- The contents of a file. -/
def readFile (name : String) : IO (Except FileError Octets) := do
  try
    return .ok (← IO.FS.readBinFile name).toList
  catch e => return .error (reasonOf e)

/-- This machine, with the files of the certificate and the key that the arguments of a server name. -/
def machineFor (arguments : List String) : IO Machine := do
  let names := match ServerProgram.program.settings {} arguments with
    | .ok s => s.config.certificate.toList ++ s.config.key.toList
    | .error _ => []
  let contents ← names.mapM fun name => return (name, ← readFile name)
  return { files := fun name => (contents.lookup name).getD (.error .missing) }

/-- Random octets of this machine. -/
def randomOctets (n : Nat) : IO Octets := return (← IO.getRandomBytes (USize.ofNat n)).toList

/-- What a client draws on here. There is no network under this program, so no broker can be reached. -/
def means : IO Means := do
  let key ← randomOctets 32
  let nonceKey ← randomOctets 32
  return {
    attempts := KeyMint.stretched (← randomOctets 32)
    sealer := .ok { key, nonces := { item := fun i => .ok (ChaCha20.stream nonceKey (Octets.bigEndian 8 i) 0 24) } }
    network := .silent }

/-- Runs the client program. -/
def client (arguments : List String) : IO UInt32 := do
  match ClientProgram.run (← means) arguments with
  | .error e => leave e
  | .ok _ => return 0

/-- Runs the server program up to where it would wait for clients, of which there are none without a network. -/
def server (arguments : List String) : IO UInt32 := do
  match ServerProgram.run (← machineFor arguments) ⟨0⟩ arguments with
  | .error e => leave e
  | .ok _ => return 0

end CoinRelay.CommandLine

open CoinRelay.CommandLine in
def main : List String → IO UInt32
  | "client" :: arguments => client arguments
  | "server" :: arguments => server arguments
  | _ => do
    IO.eprintln "usage: client OPTIONS, or server OPTIONS"
    return 2
