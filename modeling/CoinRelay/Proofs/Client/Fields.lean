import CoinRelay.Proofs.Activity.Cycle
import CoinRelay.Proofs.Client.Sending

/-!
# The fields that a client fills

A broker takes a key or a nonce only in lowercase hexadecimal, which is what octets are written in, and nothing else
(`Hex.isLower_iff`). Keys come from the mint (`publicKey_of_generate`) and nonces from the random source, as octets. So
whatever a client publishes or sends has no fault but an empty name, be it the client's own or that of the recipient.

- `mem_calls_mintBatch`, `mem_calls_send`: what a client publishes and sends;
- `hex_exactly_encodings`: texts in hexadecimal, and the fields of a client's calls.
-/

namespace CoinRelay.Client

open Crypto Link

variable {σ : Type} {link : Link σ} {c : Client} {s : σ}

/-! ## The calls of a client -/

/-- A batch makes no call but its publication. -/
theorem mem_calls_mintBatch {now : UInt64} {call : Call} (h : call ∈ (c.mintBatch link.logged now ([], s)).2.2.1) :
    ∃ seed, call = .publish (c.coins seed) := by
  cases hseed : c.nextSeed? now with
  | none =>
    rw [mintBatch, hseed] at h
    cases h
  | some seed =>
    rw [mintBatch_logged hseed, List.append_nil, List.mem_reverse, publication] at h
    split at h
    · exact ⟨seed, List.mem_singleton.1 h⟩
    · cases h

/-- A message makes no call but that of its packet. -/
theorem mem_calls_send {recipient text : String} {tier : Tier} {random : Supply UInt8} {call : Call}
    (h : call ∈ (c.send link.logged recipient text tier random ([], s)).2.2.2.1) :
    ∃ coin, call = .send (packetOf recipient text coin random) := by
  cases hchoice : c.inventory.cache.bestOrWeaker? recipient tier with
  | mk choice cache =>
    cases choice with
    | none =>
      simp only [send, Inventory.onCache, hchoice] at h
      cases h
    | some coin =>
      rw [send_logged hchoice] at h
      exact ⟨coin, List.mem_singleton.1 h⟩

/-! ## Their fields -/

/-- **Hexadecimal is what octets are written in**, and nothing else is accepted. A text passes just if it has an even
count of octets in UTF-8, all of them lowercase digits, and just if it is the text of some octets; it is read then, and
written again it is the same. Keys that a mint gives out pass, with both halves. The coins that a client publishes have
no fault if it has a name, and the packets that it sends none if the recipient has one, whatever its mint, its caches,
its random source and its link are. -/
theorem hex_exactly_encodings :
    (∀ s, Hex.isLower s = ((Octets.ofText s).length % 2 == 0 && (Octets.ofText s).all Hex.isLowerOctet)) ∧
      (∀ s, Hex.isLower s ↔ ∃ o, s = Hex.encode o) ∧
      (∀ s, Hex.isLower s → ∃ o, Hex.decode? s = some o ∧ Hex.encode o = s) ∧
      (∀ (m : KeyMint) tier pair, (m.generate tier).1 = .ok pair →
        pair.publicKey ≠ "" ∧ Hex.isLower pair.publicKey ∧ Hex.isLower pair.secretText) ∧
      ∀ {σ : Type} (link : Link σ) (c : Client) (s : σ),
        (∀ now coins, .publish coins ∈ (c.mintBatch link.logged now ([], s)).2.2.1 → ∀ coin ∈ coins,
          coin.publicKey ≠ "" ∧ Hex.isLower coin.publicKey ∧
            coin.fault? = if c.user = "" then some .emptyOwner else none) ∧
        ∀ recipient text tier random packet,
          .send packet ∈ (c.send link.logged recipient text tier random ([], s)).2.2.2.1 →
            Hex.isLower packet.nonce ∧
              packet.fault? = if recipient = "" then some .emptyRecipient else none := by
  refine ⟨Hex.isLower_eq_octets, fun s => Hex.isLower_iff, fun s => Hex.isLower_iff_decode?.1, fun m tier pair h => ?_,
    fun {σ} link c s => ⟨fun now coins hcall coin hcoin => ?_, fun recipient text tier random packet hcall => ?_⟩⟩
  · obtain ⟨hsome, hlower⟩ := publicKey_of_generate h
    exact ⟨hsome, hlower, Hex.isLower_encode pair.secret⟩
  · obtain ⟨seed, hpublish⟩ := mem_calls_mintBatch hcall
    cases hpublish
    obtain ⟨hsome, hlower⟩ := publicKey_of_mem_coins hcoin
    exact ⟨hsome, hlower, fault?_of_mem_coins hcoin⟩
  · obtain ⟨coin, hsend⟩ := mem_calls_send hcall
    cases hsend
    exact ⟨Hex.isLower_encode _, fault?_packetOf recipient text coin random⟩

/-- A novice with a coin to write with. -/
def writer : Client :=
  { novice with inventory := (novice.inventory.onCache (·.store ⟨"bob", ⟨7⟩, .bronze, "00ff", "00"⟩)).2 }

theorem hex_exactly_encodings_novice :
    (∃ o, Hex.decode? "00ff" = some o ∧ Hex.encode o = "00ff") ∧
      (∃ pair, (novice.mint.generate .bronze).1 = .ok pair ∧ Hex.isLower pair.publicKey ∧
        Hex.isLower pair.secretText) ∧
      (.publish (novice.coins 7) ∈ (novice.mintBatch direct.logged 7 ([], desk)).2.2.1 ∧
        (novice.coins 7).length = 5 ∧ ∀ coin ∈ novice.coins 7, coin.fault? = none) ∧
      ∃ packet, .send packet ∈ (writer.send direct.logged "bob" "hi" .silver (.constant 0) ([], desk)).2.2.2.1 ∧
        packet.fault? = none := by
  obtain ⟨-, -, hread, hmint, hcalls⟩ := hex_exactly_encodings
  obtain ⟨hpublished, -⟩ := hcalls direct novice desk
  obtain ⟨-, hsent⟩ := hcalls direct writer desk
  have hlength : (novice.coins 7).length = 5 := by decide +kernel
  have hsome : novice.coins 7 ≠ [] := fun hnil => by cases hnil ▸ hlength
  have hpublish : .publish (novice.coins 7) ∈ (novice.mintBatch direct.logged 7 ([], desk)).2.2.1 := by
    rw [mintBatch_logged rfl, publication, if_pos ⟨fun _ _ => ⟨_, rfl⟩, hsome⟩]
    exact List.mem_singleton_self _
  have hsend : .send (packetOf "bob" "hi" ⟨"bob", ⟨7⟩, .bronze, "00ff", "00"⟩ (.constant 0)) ∈
      (writer.send direct.logged "bob" "hi" .silver (.constant 0) ([], desk)).2.2.2.1 := by decide +kernel
  obtain ⟨pair, hpair⟩ : ∃ pair, (novice.mint.generate .bronze).1 = .ok pair := ⟨_, rfl⟩
  refine ⟨hread "00ff" rfl, ⟨pair, hpair, (hmint _ _ pair hpair).2⟩, ⟨hpublish, hlength, ?_⟩, _, hsend, ?_⟩
  · intro coin hcoin
    rw [(hpublished 7 _ hpublish coin hcoin).2.2, if_neg (by decide)]
  · rw [(hsent _ _ _ _ _ hsend).2, if_neg (by decide)]

end CoinRelay.Client
