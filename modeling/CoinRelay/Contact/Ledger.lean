import CoinRelay.Contact.Priority
import CoinRelay.Clock
import CoinRelay.Inventory.Basic
import CoinRelay.Link.Basic

/-!
# The ledger of contacts

What is known of the peers one writes to, and how their coins are kept in stock. Each observation of a contact asks the
broker for the full quantities of its priority, one coin a call, whatever is in stock and whatever the calls answer.

- `Ledger.observe`: notes a rate and replenishes the contact's coins;
- `Ledger.fetchOne`: one coin of a contact into the cache, if the broker gives the one that was asked for;
- `Ledger.collectIdle`, `Ledger.collect?`: make strangers of contacts and drop their coins.
-/

namespace CoinRelay

/-- What is known of a peer. -/
structure Contact where
  user : String
  rate : UInt32 := 0
  priority : Priority := .stranger
  held : Tier.Counts := {}
  lastSeen : UInt64
  deriving DecidableEq, Repr

/-- A contact as a stranger without coins. -/
def Contact.forgotten (c : Contact) : Contact :=
  { c with rate := 0, priority := .stranger, held := {} }

/-- The contacts by name, and the quantities to keep of their coins. -/
structure Ledger where
  issuance : Issuance := {}
  contacts : Std.ExtTreeMap String Contact := ∅

/-- Why an operation on a contact fails. -/
inductive LedgerError
  | contactNotRegistered (user : String)
  deriving DecidableEq, Repr

/-- The text of a failure. -/
def LedgerError.message : LedgerError → String
  | contactNotRegistered user => s!"contact not registered: {user}"

namespace Ledger

variable {σ : Type}

/-! ## Replenishment -/

/-- What replenishing a contact's coins came to. -/
structure Replenishment where
  priority : Priority
  requested : Tier.Counts
  obtained : Tier.Counts
  deriving DecidableEq, Repr

/-- Fetches a coin of a user and a tier into the cache. An answer that does not match the request is dropped. -/
def fetchOne (link : Link σ) (user : String) (tier : Tier) (i : Inventory) (s : σ) : Bool × Inventory × σ :=
  match link.fetch user tier s with
  | (.ok (some coin), s) =>
    if coin.owner = user ∧ coin.tier = tier then
      let (_, i) := i.onCache (·.store coin)
      (true, i, s)
    else (false, i, s)
  | (_, s) => (false, i, s)

/-- Makes `n` fetches of a tier; adds the number of coins obtained to those before. -/
def fetchMany (link : Link σ) (user : String) (tier : Tier) :
    (n obtained : Nat) → Inventory → σ → Nat × Inventory × σ
  | 0, obtained, i, s => (obtained, i, s)
  | n + 1, obtained, i, s =>
    let (found, i, s) := fetchOne link user tier i s
    fetchMany link user tier n (obtained + found.toNat) i s

/-- Makes the fetches of every tier, the strongest first. -/
def fetchAll (link : Link σ) (user : String) (requested : Tier.Counts) (i : Inventory) (s : σ) :
    Tier.Counts × Inventory × σ :=
  let (gold, i, s) := fetchMany link user .gold requested.gold.toNat 0 i s
  let (silver, i, s) := fetchMany link user .silver requested.silver.toNat 0 i s
  let (bronze, i, s) := fetchMany link user .bronze requested.bronze.toNat 0 i s
  (⟨UInt32.ofNat gold, UInt32.ofNat silver, UInt32.ofNat bronze⟩, i, s)

/-- Notes the rate of a contact and replenishes its coins. -/
def observe (link : Link σ) (now : UInt64) (user : String) (rate : UInt32) (l : Ledger) (i : Inventory) (s : σ) :
    Replenishment × Ledger × Inventory × σ :=
  let priority := Priority.ofRate rate
  let requested := l.issuance.replenish priority
  let (obtained, i, s) := fetchAll link user requested i s
  let contact : Contact := { user, rate, priority, held := i.cache.held user, lastSeen := now }
  ({ priority, requested, obtained }, { l with contacts := l.contacts.insert user contact }, i, s)

/-! ## Collection -/

/-- What a collection came to. -/
structure Collection where
  demoted : Nat
  purged : Nat
  deriving DecidableEq, Repr

/-- Makes a stranger of a contact and drops its coins; gives their number. -/
def demote (user : String) (l : Ledger) (i : Inventory) : Nat × Ledger × Inventory :=
  let (purged, i) := i.onCache (·.purge user)
  (purged, { l with contacts := l.contacts.modify user Contact.forgotten }, i)

/-- Whether a contact was not seen for longer than `maxIdle` seconds and has something to lose. -/
def isIdle (now : UInt64) (maxIdle : Nat) (c : Contact) : Bool :=
  maxIdle < elapsed c.lastSeen now && (c.priority ≠ .stranger || 0 < c.held.sum)

/-- Demotes the contacts that were idle for longer than `maxIdle` seconds. -/
def collectIdle (now : UInt64) (maxIdle : Nat) (l : Ledger) (i : Inventory) : Collection × Ledger × Inventory :=
  let idle := (l.contacts.toList.filter fun (_, c) => isIdle now maxIdle c).map (·.1)
  idle.foldl
    (fun (report, l, i) user =>
      let (purged, l, i) := demote user l i
      ({ demoted := report.demoted + 1, purged := report.purged + purged }, l, i))
    ({ demoted := 0, purged := 0 }, l, i)

/-- Demotes one contact. -/
def collect? (user : String) (l : Ledger) (i : Inventory) : Except LedgerError Nat × Ledger × Inventory :=
  if l.contacts.contains user then
    let (purged, l, i) := demote user l i
    (.ok purged, l, i)
  else (.error (.contactNotRegistered user), l, i)

/-! ## Text -/

/-- What a ledger tells of itself: the number of its contacts. -/
def describe (l : Ledger) : String := "ContactLedger \x7b contacts: " ++ toString l.contacts.size ++ ", .. \x7d"

end Ledger

end CoinRelay
