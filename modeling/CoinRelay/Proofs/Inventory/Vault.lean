import CoinRelay.Inventory.Basic
import CoinRelay.Proofs.Inventory.Ordered

/-!
# What a vault opens

A vault opens an identifier if it hands out a secret under it (`Vault.Opens`). Every operation touches the identifiers
it is given and no others (`Vault.AgreeOff`), and what is not touched opens as before:

- `burn_store`: what was stored is handed out;
- `agreeOff_store`, `agreeOff_burn`, `agreeOff_discard`, `agreeOff_discardSecrets`: what each operation touches.
-/

namespace CoinRelay.Vault

open Crypto

variable {u v w : Vault} {keyId : KeyId} {keyIds : List KeyId}

/-! ## Opening -/

/-- The vault hands out a secret under an identifier. -/
def Opens (v : Vault) (keyId : KeyId) : Prop := (v.burn keyId).1.isSome

theorem opens_iff : v.Opens keyId ↔
    ∃ sealed, v.entries[keyId]? = some sealed ∧ (v.sealer.disclose keyId sealed).toOption.isSome := by
  unfold Opens burn
  cases v.entries[keyId]? with
  | none => simp
  | some sealed => simp

/-- What opens is there. -/
theorem Opens.mem (h : v.Opens keyId) : keyId ∈ v.entries := by
  obtain ⟨sealed, he, -⟩ := opens_iff.1 h
  rw [Std.ExtTreeMap.mem_iff_isSome_getElem?, he]
  rfl

/-- What a vault without entries opens: nothing. -/
theorem not_mem_of_empty (h : v.entries = ∅) : keyId ∉ v.entries := by
  rw [h]
  exact Std.ExtTreeMap.not_mem_empty

/-! ## Agreement -/

/-- Two vaults with one key have the same entries, but for some identifiers. -/
structure AgreeOff (keyIds : List KeyId) (v w : Vault) : Prop where
  key : w.sealer.key = v.sealer.key
  entries : ∀ keyId, keyId ∉ keyIds → w.entries[keyId]? = v.entries[keyId]?

namespace AgreeOff

theorem refl (keyIds : List KeyId) (v : Vault) : AgreeOff keyIds v v := ⟨rfl, fun _ _ => rfl⟩

theorem trans (h : AgreeOff keyIds u v) (h' : AgreeOff keyIds v w) : AgreeOff keyIds u w :=
  ⟨h'.key.trans h.key, fun k hk => (h'.entries k hk).trans (h.entries k hk)⟩

theorem mono {more : List KeyId} (h : AgreeOff keyIds v w) (hsub : keyIds ⊆ more) : AgreeOff more v w :=
  ⟨h.key, fun k hk => h.entries k fun hin => hk (hsub hin)⟩

/-- Elsewhere, the same secrets are handed out. -/
theorem burn (h : AgreeOff keyIds v w) (hk : keyId ∉ keyIds) : (w.burn keyId).1 = (v.burn keyId).1 := by
  unfold Vault.burn
  rw [h.entries keyId hk]
  cases v.entries[keyId]? with
  | none => rfl
  | some sealed => simp only [Sealer.disclose, h.key]

/-- Elsewhere, what opened opens. -/
theorem opens (h : AgreeOff keyIds v w) (hk : keyId ∉ keyIds) (ho : v.Opens keyId) : w.Opens keyId := by
  unfold Opens
  rw [h.burn hk]
  exact ho

/-- Elsewhere, what is there was there. -/
theorem mem (h : AgreeOff keyIds v w) (hk : keyId ∈ w.entries) : keyId ∈ keyIds ∨ keyId ∈ v.entries := by
  by_cases hin : keyId ∈ keyIds
  · exact .inl hin
  · rw [Std.ExtTreeMap.mem_iff_isSome_getElem?, h.entries keyId hin] at hk
    exact .inr (Std.ExtTreeMap.mem_iff_isSome_getElem?.2 hk)

end AgreeOff

/-! ## Operations -/

theorem agreeOff_insert (sealer : Sealer) (sealed : Sealed) (hkey : sealer.key = v.sealer.key) :
    AgreeOff [keyId] v { v with sealer, entries := v.entries.insert keyId sealed } := by
  refine ⟨hkey, ?_⟩
  intro k hk
  show (v.entries.insert keyId sealed)[k]? = _
  rw [Ordered.getElem?_insert_eq, if_neg fun heq => hk (List.mem_singleton.2 heq.symm)]

theorem agreeOff_erase (burned : Nat) :
    AgreeOff [keyId] v { v with entries := v.entries.erase keyId, burned } := by
  refine ⟨rfl, ?_⟩
  intro k hk
  show (v.entries.erase keyId)[k]? = _
  rw [Ordered.getElem?_erase_eq, if_neg fun heq => hk (List.mem_singleton.2 heq.symm)]

/-- Storing touches the identifier that is stored under. -/
theorem agreeOff_store (keyId : KeyId) (secret : Octets) (v : Vault) : AgreeOff [keyId] v (v.store keyId secret).2 := by
  have hkey := v.sealer.enclose_key keyId secret
  unfold store
  cases h : v.sealer.enclose keyId secret with
  | mk sealed sealer =>
    rw [h] at hkey
    cases sealed with
    | error e => exact ⟨hkey, fun _ _ => rfl⟩
    | ok sealed => exact agreeOff_insert sealer sealed hkey

/-- **What was stored** is handed out. -/
theorem burn_store {secret : Octets} (h : (v.store keyId secret).1 = .ok ()) :
    ((v.store keyId secret).2.burn keyId).1 = some secret := by
  have hopen : ∀ sealed, (v.sealer.enclose keyId secret).1 = .ok sealed →
      (v.sealer.enclose keyId secret).2.disclose keyId sealed = .ok secret :=
    fun sealed hs => Sealer.disclose_of_enclose hs (v.sealer.enclose_key keyId secret)
  unfold store at h ⊢
  cases he : v.sealer.enclose keyId secret with
  | mk sealed sealer =>
    simp only [he] at h hopen ⊢
    cases sealed with
    | error e => cases h
    | ok sealed =>
      have hentry : (v.entries.insert keyId sealed)[keyId]? = some sealed := by
        rw [Ordered.getElem?_insert_eq, if_pos rfl]
      simp only [Vault.burn, hentry, hopen sealed rfl]
      rfl

/-- Burning touches the identifier that is burned. -/
theorem agreeOff_burn (keyId : KeyId) (v : Vault) : AgreeOff [keyId] v (v.burn keyId).2 := by
  unfold burn
  cases v.entries[keyId]? with
  | none => exact .refl _ v
  | some sealed => exact agreeOff_erase _

/-- Discarding touches the identifier that is discarded. -/
theorem agreeOff_discard (keyId : KeyId) (v : Vault) : AgreeOff [keyId] v (v.discard keyId).2 := agreeOff_erase _

/-- Discarding several touches them alone. -/
theorem agreeOff_discardSecrets (keyIds : List KeyId) (i : Inventory) :
    AgreeOff keyIds i.vault (i.discardSecrets keyIds).vault := by
  unfold Inventory.discardSecrets
  generalize i.vault = v
  induction keyIds generalizing v with
  | nil => exact .refl _ v
  | cons keyId keyIds ih =>
    have hfirst := (agreeOff_discard keyId v).mono (List.cons_subset_cons keyId (List.nil_subset keyIds))
    exact hfirst.trans ((ih _).mono (List.subset_cons_self keyId keyIds))

end CoinRelay.Vault
