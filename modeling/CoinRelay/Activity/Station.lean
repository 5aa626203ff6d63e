import CoinRelay.Activity.Command
import CoinRelay.Client
import CoinRelay.Contact.Ledger
import CoinRelay.Contact.Tracker
import CoinRelay.Device

/-!
# One user's activities

What a running client does: it keeps its coins and those of its contacts in stock, looks for mail, and obeys the
console. The three activities share one station.

- `Station.maintain?`: mints a batch, replenishes the contacts, and collects those that were idle for too long, each at
  a time of its own (`Readings`);
- `Station.listen`: checks the mailbox;
- `Station.obey`, `Station.obeyAll`: what a console line asks for, and what lines ask for up to the exit.
-/

namespace CoinRelay

/-- A client, what it knows of its contacts, its device, random octets, and the state of its link. -/
structure Station (σ : Type) where
  client : Client
  ledger : Ledger := {}
  tracker : Tracker := {}
  device : Device := {}
  random : Supply UInt8
  line : σ

namespace Station

variable {σ : Type}

/-! ## Maintenance -/

/-- What the wall clock reads in a cycle of maintenance: for the seed, when each user is observed, and for the
collection. -/
structure Readings where
  seed : UInt64
  seen : String → UInt64
  collection : UInt64

/-- A clock that stands still. -/
def Readings.constant (now : UInt64) : Readings := { seed := now, seen := fun _ => now, collection := now }

/-- Mints a batch; gives the outcome. -/
def mint (link : Link σ) (now : UInt64) (s : Station σ) : Except ClientError Client.MintReport × Station σ :=
  let (result, client, line) := s.client.mintBatch link now s.line
  (result, { s with client, line })

/-- Notes the rate of a contact. The user is no contact of its own. -/
def observe (link : Link σ) (now : UInt64) (s : Station σ) (rate : String × UInt32) : Station σ :=
  if rate.1 = s.client.user then s
  else
    let (_, ledger, inventory, line) := s.ledger.observe link now rate.1 rate.2 s.client.inventory s.line
    { s with ledger, line, client := { s.client with inventory } }

/-- Notes the rates of contacts one after the other. -/
def observeAll (link : Link σ) (seen : String → UInt64) (rates : List (String × UInt32)) (s : Station σ) : Station σ :=
  rates.foldl (fun s rate => s.observe link (seen rate.1) rate) s

/-- Notes the rates of the period that ends. -/
def replenish (link : Link σ) (seen : String → UInt64) (s : Station σ) : Station σ :=
  let (rates, tracker) := s.tracker.snapshot
  observeAll link seen rates { s with tracker }

/-- Collects the contacts that were idle for longer than `maxIdle` seconds. -/
def collect (now : UInt64) (maxIdle : Nat) (s : Station σ) : Station σ :=
  let (_, ledger, inventory) := s.ledger.collectIdle now maxIdle s.client.inventory
  { s with ledger, client := { s.client with inventory } }

/-- One cycle of maintenance. Coins are minted and fetched only under ideal conditions, and failures to do so are
passed over; without a seed left the cycle breaks off. -/
def maintain? (link : Link σ) (clock : Readings) (maxIdle : Nat) (s : Station σ) : Option (Station σ) :=
  if s.device.isIdeal then
    match s.mint link clock.seed with
    | (.error .seedsExhausted, _) => none
    | (_, s) => some ((s.replenish link clock.seen).collect clock.collection maxIdle)
  else some (s.collect clock.collection maxIdle)

/-! ## Mail -/

/-- Checks the mailbox. A failure is passed over. -/
def listen (link : Link σ) (s : Station σ) : Station σ :=
  let (_, client, line) := s.client.checkMail link s.line
  { s with client, line }

/-! ## Console -/

/-- Sends a text with a coin of the tier that the device selects, and counts it if the broker took it. -/
def send (link : Link σ) (recipient text : String) (s : Station σ) : Station σ :=
  let (result, random, client, line) := s.client.send link recipient text s.device.tier s.random s.line
  let s := { s with random, client, line }
  match result with
  | .ok _ => { s with tracker := s.tracker.record recipient }
  | .error _ => s

/-- Does what a line asks for; says whether the console goes on. -/
def obey (link : Link σ) (text : String) (s : Station σ) : Bool × Station σ :=
  match Command.parse text with
  | .send recipient text => (true, s.send link recipient text)
  | .exit => (false, s)
  | .ignored => (true, s)

/-- Does what lines ask for, one after the other, up to the one that ends the console; says whether it goes on. -/
def obeyAll (link : Link σ) : List String → Station σ → Bool × Station σ
  | [], s => (true, s)
  | text :: texts, s =>
    match s.obey link text with
    | (true, s) => obeyAll link texts s
    | (false, s) => (false, s)

end Station

end CoinRelay
