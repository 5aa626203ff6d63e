import CoinRelay.Client
import CoinRelay.Link.Direct
import CoinRelay.Proofs.Inventory.Vault

/-!
# Checking mail

A mail check burns the secrets behind the packets that it drained and touches no other (`agreeOff_burnAll`). When each
of the packets was sent with a key of its own and the secrets are all there, it delivers all of them
(`burnAll_of_opens`).
-/

namespace CoinRelay.Client

theorem burnAll_cons (packet : Packet) (packets : List Packet) (i : Inventory) :
    burnAll (packet :: packets) i =
      let rest := burnAll packets (i.onVault (·.burn packet.keyId)).2
      if (i.vault.burn packet.keyId).1.isSome then
        ({ rest.1 with delivered := packet :: rest.1.delivered }, rest.2)
      else ({ rest.1 with missingKey := packet :: rest.1.missingKey }, rest.2) := by
  simp only [burnAll, Inventory.onVault]
  cases (i.vault.burn packet.keyId).1 <;> rfl

theorem burnAll_snd (packets : List Packet) (i : Inventory) :
    (burnAll packets i).2 = packets.foldl (fun i packet => (i.onVault (·.burn packet.keyId)).2) i := by
  induction packets generalizing i with
  | nil => rfl
  | cons packet packets ih =>
    rw [burnAll_cons, List.foldl_cons, ← ih]
    simp only
    split <;> rfl

/-- Burning touches the vault under the keys of the packets. -/
theorem agreeOff_burnAll (packets : List Packet) (i : Inventory) :
    (burnAll packets i).2.cache = i.cache ∧
      Vault.AgreeOff (packets.map (·.keyId)) i.vault (burnAll packets i).2.vault := by
  rw [burnAll_snd]
  induction packets generalizing i with
  | nil => exact ⟨rfl, .refl _ _⟩
  | cons packet packets ih =>
    obtain ⟨hcache, hvault⟩ := ih (i.onVault (·.burn packet.keyId)).2
    have hfirst := Vault.agreeOff_burn packet.keyId i.vault
    refine ⟨hcache, (hfirst.mono ?_).trans (hvault.mono (List.subset_cons_self _ _))⟩
    exact List.cons_subset_cons _ (List.nil_subset _)

/-- **Packets whose keys all open** are all delivered. -/
theorem burnAll_of_opens {packets : List Packet} {i : Inventory} (hnd : (packets.map (·.keyId)).Nodup)
    (hopens : ∀ keyId ∈ packets.map (·.keyId), i.vault.Opens keyId) :
    (burnAll packets i).1 = { delivered := packets } := by
  induction packets generalizing i with
  | nil => rfl
  | cons packet packets ih =>
    rw [List.map_cons, List.nodup_cons] at hnd
    have hfirst : (i.vault.burn packet.keyId).1.isSome := hopens packet.keyId List.mem_cons_self
    have hburn := Vault.agreeOff_burn packet.keyId i.vault
    have hrest := ih (i := (i.onVault (·.burn packet.keyId)).2) hnd.2 fun keyId hk =>
      hburn.opens (fun hin => hnd.1 (List.mem_singleton.1 hin ▸ hk)) (hopens keyId (List.mem_cons_of_mem _ hk))
    rw [burnAll_cons]
    simp only
    rw [if_pos hfirst, hrest]

end CoinRelay.Client
