import CoinRelay.Broker.Registry
import CoinRelay.Clock
import CoinRelay.Text.Duration
import CoinRelay.Wire.Message

/-!
# The broker

Keeps the coins that users list and the packets that wait for them. Coins are listed in the order they were published
and packets wait in the order they were routed.

- `Broker.publish`: lists a batch of coins, all or nothing;
- `Broker.fetch`: hands out the first coin of a tier that a user lists;
- `Broker.route`, `Broker.drain`: put a packet into a mailbox, and take out those that fit into one reply;
- `Broker.count`, `Broker.purge`: the coins nobody fetched yet, and the end of those that grew stale.
-/

namespace CoinRelay

open Wire

/-! ## Configuration -/

/-- What becomes of a coin that is fetched. -/
inductive Dispense
  | shared
  | singleUse
  deriving DecidableEq, Repr

/-- The name of a way to dispense. -/
def Dispense.name : Dispense → String
  | shared => "Shared"
  | singleUse => "SingleUse"

namespace Broker

/-- The seconds of thirty days. -/
def thirtyDays : Nat := 30 * 24 * 60 * 60

/-- How a broker dispenses coins, and the age in milliseconds up to which it lists one that nobody fetched. -/
structure Config where
  dispense : Dispense := .shared
  staleAfter : Nat := thirtyDays * 1000
  deriving DecidableEq, Repr

/-- The whole seconds of the age at which coins grow stale. -/
def Config.maxAge (c : Config) : Nat := c.staleAfter / 1000

end Broker

/-! ## State -/

/-- A coin that a broker lists. -/
structure Listing where
  coin : Coin
  publishedAt : UInt64
  dispensed : Bool := false
  deriving DecidableEq, Repr

/-- A packet that waits in a mailbox, and its length on the wire. -/
structure Queued where
  packet : Packet
  size : Nat
  deriving DecidableEq, Repr

/-- The coins listed and the packets waiting, by user. -/
structure Broker where
  config : Broker.Config := {}
  clock : Clock
  listings : Registry Listing := .empty
  mailboxes : Registry Queued := .empty

/-- Why a broker refuses records. -/
inductive BrokerError
  | invalidCoin (index : Nat) (source : ProtocolError)
  | invalidPacket (source : ProtocolError)
  deriving DecidableEq, Repr

/-- The text of a refusal. -/
def BrokerError.message : BrokerError → String
  | invalidCoin index source => s!"coin {index} in batch rejected: {source.message}"
  | invalidPacket source => s!"packet rejected: {source.message}"

namespace Broker

/-- What a broker counts. -/
structure Stats where
  users : Nat
  coins : Nat
  pending : Nat
  deriving DecidableEq, Repr

/-- The users with coins, the coins and the packets of a broker. -/
def stats (b : Broker) : Stats where
  users := b.listings.users
  coins := b.listings.size
  pending := b.mailboxes.size

/-! ## Listings -/

/-- A batch on its way into the listings: the owners and identifiers of the coins that it listed, how many they are, and
how many of its coins are duplicates. -/
structure Intake where
  listings : Registry Listing
  seen : List (String × KeyId) := []
  accepted : Nat := 0
  duplicates : Nat := 0

/-- Takes in a valid coin. Its owner is entered before it is known whether the coin is a duplicate, which it is if its
owner lists the identifier or if the batch had it before. -/
def Intake.take (now : UInt64) (s : Intake) (coin : Coin) : Intake :=
  let s := { s with listings := s.listings.enter coin.owner }
  let listed := (s.listings.of coin.owner).any (·.coin.keyId = coin.keyId)
  if listed || s.seen.contains (coin.owner, coin.keyId) then { s with duplicates := s.duplicates + 1 }
  else
    { listings := s.listings.push coin.owner { coin, publishedAt := now }
      seen := (coin.owner, coin.keyId) :: s.seen
      accepted := s.accepted + 1
      duplicates := s.duplicates }

/-- The first coin of a batch that is not valid. -/
def invalid? (coins : List Coin) : Option BrokerError :=
  coins.zipIdx.findSome? fun (coin, index) =>
    match coin.check with
    | .ok () => none
    | .error e => some (.invalidCoin index e)

/-- Lists a batch of coins. One that is not valid keeps out all of them. -/
def publish (coins : List Coin) (b : Broker) : Except BrokerError PublishAck × Broker :=
  match invalid? coins with
  | some e => (.error e, b)
  | none =>
    let s := coins.foldl (Intake.take b.clock.now) { listings := b.listings }
    (.ok { accepted := UInt32.ofNat s.accepted, duplicates := UInt32.ofNat s.duplicates },
      { b with listings := s.listings })

/-- Dispenses the first listing of a tier: marks it, or takes it out. -/
def dispense? (d : Dispense) (tier : Tier) : List Listing → Option (Coin × List Listing)
  | [] => none
  | l :: ls =>
    if l.coin.tier = tier then
      match d with
      | .shared => some (l.coin, { l with dispensed := true } :: ls)
      | .singleUse => some (l.coin, ls)
    else (dispense? d tier ls).map fun (coin, ls) => (coin, l :: ls)

/-- Hands out the first coin of a tier that a user lists. -/
def fetch (user : String) (tier : Tier) (b : Broker) : Option Coin × Broker :=
  match dispense? b.config.dispense tier (b.listings.of user) with
  | none => (none, b)
  | some (coin, ls) => (some coin, { b with listings := b.listings.put user ls })

/-- How many coins of a user nobody has fetched. -/
def count (user : String) (b : Broker) : Tier.Counts :=
  Tier.Counts.tally (((b.listings.of user).filter fun l => !l.dispensed).map (·.coin.tier))

/-- Whether a listing outlives a purge: it was fetched, or it is not too old. -/
def outlives (now : UInt64) (maxAge : Nat) (l : Listing) : Bool :=
  l.dispensed || elapsed l.publishedAt now ≤ maxAge

/-- Drops the listings that nobody fetched and that are too old; gives their number. -/
def purge (now : UInt64) (b : Broker) : Nat × Broker :=
  let listings := b.listings.retain (outlives now b.config.maxAge)
  (b.listings.size - listings.size, { b with listings })

/-! ## Mailboxes -/

/-- Puts a packet into its recipient's mailbox. -/
def route (packet : Packet) (b : Broker) : Except BrokerError Unit × Broker :=
  match packet.check with
  | .error e => (.error (.invalidPacket e), b)
  | .ok () =>
    let mailboxes := b.mailboxes.enter packet.recipient
    (.ok (), { b with mailboxes := mailboxes.push packet.recipient { packet, size := packet.size } })

/-- The longest run of packets from the front whose lengths sum to at most `budget`, and the others. -/
def fill (budget : Nat) : List Queued → List Packet × List Queued
  | [] => ([], [])
  | q :: qs =>
    if q.size ≤ budget then
      let (taken, left) := fill (budget - q.size) qs
      (q.packet :: taken, left)
    else ([], q :: qs)

/-- Takes the packets that fit into one reply out of a user's mailbox. -/
def drain (user : String) (b : Broker) : List Packet × Broker :=
  let (taken, left) := fill mailboxBudget (b.mailboxes.of user)
  (taken, { b with mailboxes := b.mailboxes.put user left })

/-! ## Text -/

/-- What a broker tells of itself: its configuration. -/
def describe (b : Broker) : String :=
  "Broker \x7b config: BrokerConfig \x7b dispense: " ++ b.config.dispense.name ++ ", stale_after: " ++
    Text.duration b.config.staleAfter ++ " \x7d, .. \x7d"

end Broker

end CoinRelay
