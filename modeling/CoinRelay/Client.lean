import CoinRelay.Contact.Priority
import CoinRelay.Crypto.Binding
import CoinRelay.Crypto.KeyMint
import CoinRelay.Inventory.Basic
import CoinRelay.Link.Basic

/-!
# Clients

One user's side of the relay: minting coins for others to write with, writing with the coins of others, and reading
the mailbox.

- `Client.mintBatch`: mints a batch of coins and publishes it;
- `Client.send`: sends a text with a cached coin of its recipient;
- `Client.checkMail`: drains the mailbox and burns the secret behind every packet.
-/

namespace CoinRelay

open Crypto

/-- A user, the quantities to mint, the last seed used, the source of key pairs, and what the user holds. -/
structure Client where
  user : String
  issuance : Issuance := {}
  lastSeed : UInt64 := 0
  mint : KeyMint
  inventory : Inventory

/-- Why an operation of a client fails. -/
inductive ClientError
  | link (cause : LinkError)
  | keyExhausted (recipient : String) (tier : Tier)
  | crypto (cause : CryptoError)
  | seedsExhausted
  deriving DecidableEq, Repr

/-- The text of a failure. -/
def ClientError.message : ClientError → String
  | link cause => cause.message
  | keyExhausted recipient tier => s!"no coin cached for {recipient} at {tier.name} or below"
  | crypto cause => cause.message
  | seedsExhausted => "attempt to add with overflow"

namespace Client

variable {σ : Type}

/-! ## Minting -/

/-- What minting came to. -/
structure MintReport where
  seed : UInt64
  minted : Tier.Counts := {}
  skipped : UInt32 := 0
  accepted : UInt32 := 0
  duplicates : UInt32 := 0
  deriving DecidableEq, Repr

/-- A seed above every seed used before, and not behind the clock; there is none above the last. -/
def nextSeed? (now : UInt64) (c : Client) : Option UInt64 :=
  if c.lastSeed.toNat + 1 < UInt64.size then some (max now (c.lastSeed + 1)) else none

/-- The tiers and indexes of a batch's keys, in the order they are minted. -/
def keySlots (quantities : Tier.Counts) : List (Tier × UInt16) :=
  Tier.all.flatMap fun tier =>
    (List.range (min (quantities.get tier).toNat KeyId.indexesPerTier)).map fun index => (tier, UInt16.ofNat index)

/-- The coins minted so far, the last first, and the number of slots whose keys failed to generate. -/
structure Batch where
  coins : List Coin := []
  skipped : Nat := 0
  deriving DecidableEq, Repr

/-- Mints the key of a slot and keeps its secret. -/
def mintOne (seed : UInt64) (slot : Tier × UInt16) (batch : Batch) (c : Client) :
    Except CryptoError Batch × Client :=
  let keyId := KeyId.derive seed slot.1 slot.2
  let (pair, mint) := c.mint.generate slot.1
  let c := { c with mint }
  match pair with
  | .error _ => (.ok { batch with skipped := batch.skipped + 1 }, c)
  | .ok pair =>
    let (stored, inventory) := c.inventory.onVault (·.store keyId pair.secret)
    let c := { c with inventory }
    match stored with
    | .error e => (.error e, { c with inventory := inventory.discardSecrets (batch.coins.reverse.map (·.keyId)) })
    | .ok () =>
      let coin : Coin :=
        { owner := c.user, keyId, tier := slot.1, publicKey := pair.publicKey,
          signature := Binding.tag pair.publicKey slot.1 }
      (.ok { batch with coins := coin :: batch.coins }, c)

/-- Mints the keys of the slots. When a secret cannot be kept, those of the batch are dropped again. -/
def mintSlots (seed : UInt64) : List (Tier × UInt16) → Batch → Client → Except CryptoError Batch × Client
  | [], batch, c => (.ok batch, c)
  | slot :: slots, batch, c =>
    match mintOne seed slot batch c with
    | (.error e, c) => (.error e, c)
    | (.ok batch, c) => mintSlots seed slots batch c

/-- Publishes a batch. A broker that rejects it has none of it, so its secrets go; after any other failure the broker
may have it, so they stay. -/
def publishBatch (link : Link σ) (report : MintReport) (coins : List Coin) (c : Client) (s : σ) :
    Except ClientError MintReport × Client × σ :=
  match link.publish coins s with
  | (.ok ack, s) => (.ok { report with accepted := ack.accepted, duplicates := ack.duplicates }, c, s)
  | (.error (.rejected code message), s) =>
    (.error (.link (.rejected code message)),
      { c with inventory := c.inventory.discardSecrets (coins.map (·.keyId)) }, s)
  | (.error e, s) => (.error (.link e), c, s)

/-- Mints a batch of coins and publishes their public halves. -/
def mintBatch (link : Link σ) (now : UInt64) (c : Client) (s : σ) : Except ClientError MintReport × Client × σ :=
  match c.nextSeed? now with
  | none => (.error .seedsExhausted, c, s)
  | some seed =>
    match mintSlots seed (keySlots c.issuance.mint) {} { c with lastSeed := seed } with
    | (.error e, c) => (.error (.crypto e), c, s)
    | (.ok batch, c) =>
      let coins := batch.coins.reverse
      let report : MintReport :=
        { seed, minted := Tier.Counts.tally (coins.map (·.tier)), skipped := UInt32.ofNat batch.skipped }
      if coins.isEmpty then (.ok report, c, s) else publishBatch link report coins c s

/-! ## Sending -/

/-- The number of random octets in a packet. -/
def nonceLength : Nat := 24

/-- Sends a text to a recipient with a cached coin of a tier or below. The coin is spent when the broker takes the
packet, and stays when it does not. -/
def send (link : Link σ) (recipient text : String) (tier : Tier) (random : Supply UInt8) (c : Client) (s : σ) :
    Except ClientError KeyId × Supply UInt8 × Client × σ :=
  let (coin, inventory) := c.inventory.onCache (·.bestOrWeaker? recipient tier)
  let c := { c with inventory }
  match coin with
  | none => (.error (.keyExhausted recipient tier), random, c, s)
  | some coin =>
    let (nonce, random) := random.draw nonceLength
    let packet : Packet :=
      { recipient, keyId := coin.keyId, tier := coin.tier, ciphertext := "", payload := text,
        nonce := Hex.encode nonce }
    match link.send packet s with
    | (.error e, s) => (.error (.link e), random, c, s)
    | (.ok (), s) =>
      let (_, inventory) := c.inventory.onCache (·.discard recipient coin.keyId)
      (.ok coin.keyId, random, { c with inventory }, s)

/-! ## Receiving -/

/-- The packets of a mailbox: those whose secret was there, and those sent with a key that is not. -/
structure MailReport where
  delivered : List Packet := []
  missingKey : List Packet := []
  deriving DecidableEq, Repr

/-- Burns the secret behind every packet. -/
def burnAll : List Packet → Inventory → MailReport × Inventory
  | [], i => ({}, i)
  | packet :: packets, i =>
    let (secret, i) := i.onVault (·.burn packet.keyId)
    let (report, i) := burnAll packets i
    match secret with
    | some _ => ({ report with delivered := packet :: report.delivered }, i)
    | none => ({ report with missingKey := packet :: report.missingKey }, i)

/-- Drains the mailbox and burns the secret behind every packet. -/
def checkMail (link : Link σ) (c : Client) (s : σ) : Except ClientError MailReport × Client × σ :=
  match link.drain c.user s with
  | (.error e, s) => (.error (.link e), c, s)
  | (.ok packets, s) =>
    let (report, inventory) := burnAll packets c.inventory
    (.ok report, { c with inventory }, s)

end Client

end CoinRelay
