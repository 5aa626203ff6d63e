import CoinRelay.Link.Faulty
import CoinRelay.Main
import CoinRelay.Proofs.Activity.Accounts
import CoinRelay.Proofs.Activity.Grammar
import CoinRelay.Proofs.Activity.Input
import CoinRelay.Proofs.Broker.Answered
import CoinRelay.Proofs.Broker.Batch
import CoinRelay.Proofs.Broker.Conserved
import CoinRelay.Proofs.Broker.Refused
import CoinRelay.Proofs.Broker.Stable
import CoinRelay.Proofs.Broker.Staleness
import CoinRelay.Proofs.Client.Atomic
import CoinRelay.Proofs.Client.Fields
import CoinRelay.Proofs.Client.MintOrder
import CoinRelay.Proofs.Client.Sending
import CoinRelay.Proofs.Client.Sorting
import CoinRelay.Proofs.Contact.Restocking
import CoinRelay.Proofs.Inventory.Oversized
import CoinRelay.Proofs.Link.Framed
import CoinRelay.Proofs.Relay.Delivery
import CoinRelay.Proofs.Wire.Delimited
import CoinRelay.Proofs.Wire.Framing
import CoinRelay.Proofs.Wire.Spelling
