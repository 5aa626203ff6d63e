import CoinRelay.Proofs.Inventory.Calls
import CoinRelay.Proofs.Inventory.Storing
import Mathlib.Data.Finset.Card

/-!
# Secrets are handed out once

A vault hands out the secret that was stored last under an identifier, unless it was burned or discarded since
(`StoredLast`), and so each secret at most once for each time that it was stored (`secrets_handed_out_once`).

- `Vault.burn_after_store`, `Vault.burn_after_burn`, `Vault.burn_after_discard`: what a vault hands out after a call;
- `storedLast_concat`: how one more call bears on what was stored last;
- `Tells`, `Tells.concat`: the account of the calls tells what is in the vault;
- `nonces_transcript`: calls ask for as many nonces as there are stores among them.
-/

namespace CoinRelay

open Crypto

/-! ## One call on a vault -/

namespace Vault

variable {v w : Vault} {keyId : KeyId} {secret : Octets}

/-- Storing fails without touching any entry. -/
theorem agreeOff_store_error {e : CryptoError} (h : (v.store keyId secret).1 = .error e) :
    AgreeOff [] v (v.store keyId secret).2 := by
  have hkey := v.sealer.enclose_key keyId secret
  unfold store at h ⊢
  cases hseal : v.sealer.enclose keyId secret with
  | mk sealed sealer =>
    rw [hseal] at h hkey
    cases sealed with
    | error e => exact ⟨hkey, fun _ _ => rfl⟩
    | ok sealed => cases h

/-- A secret that was stored is the one that is handed out under its identifier. -/
theorem burn_after_store (h : (v.store keyId secret).1 = .ok ()) (k : KeyId) :
    ((v.store keyId secret).2.burn k).1 = if k = keyId then some secret else (v.burn k).1 := by
  by_cases hk : k = keyId
  · rw [if_pos hk, hk]
    exact burn_store h
  · rw [if_neg hk]
    apply (agreeOff_store keyId secret v).burn
    simpa using hk

theorem burn_eq_none (h : keyId ∉ v.entries) : (v.burn keyId).1 = none := by
  unfold burn
  rw [Std.ExtTreeMap.getElem?_eq_none h]

theorem not_mem_burn (keyId : KeyId) (v : Vault) : keyId ∉ (v.burn keyId).2.entries := by
  unfold burn
  split
  · next hnone =>
    rw [Std.ExtTreeMap.mem_iff_isSome_getElem?, hnone]
    exact Bool.false_ne_true
  · simp

theorem not_mem_discard (keyId : KeyId) (v : Vault) : keyId ∉ (v.discard keyId).2.entries := by
  simp [discard]

/-- Where an entry was taken out, nothing is handed out; the others are handed out as before. -/
theorem AgreeOff.burn_eq_some_iff (h : AgreeOff [keyId] v w) (hnot : keyId ∉ w.entries) (k : KeyId) (s : Octets) :
    (w.burn k).1 = some s ↔ (v.burn k).1 = some s ∧ ¬keyId = k := by
  by_cases hk : keyId = k
  · subst hk
    simp [burn_eq_none hnot]
  · have hoff : k ∉ [keyId] := by simpa using Ne.symm hk
    simp [h.burn hoff, hk]

/-- A secret that was burned is gone. -/
theorem burn_after_burn (keyId : KeyId) (v : Vault) (k : KeyId) (s : Octets) :
    ((v.burn keyId).2.burn k).1 = some s ↔ (v.burn k).1 = some s ∧ ¬keyId = k :=
  (agreeOff_burn keyId v).burn_eq_some_iff (not_mem_burn keyId v) k s

/-- A secret that was discarded is gone. -/
theorem burn_after_discard (keyId : KeyId) (v : Vault) (k : KeyId) (s : Octets) :
    ((v.discard keyId).2.burn k).1 = some s ↔ (v.burn k).1 = some s ∧ ¬keyId = k :=
  (agreeOff_discard keyId v).burn_eq_some_iff (not_mem_discard keyId v) k s

/-! ### Entries that open -/

/-- Every entry of the vault opens. -/
def Whole (v : Vault) : Prop := ∀ keyId, keyId ∈ v.entries → v.Opens keyId

namespace Whole

/-- An entry is there exactly if a secret is handed out. -/
theorem has_eq (h : v.Whole) (keyId : KeyId) : v.has keyId = (v.burn keyId).1.isSome := by
  rw [Bool.eq_iff_iff]
  constructor
  · intro hhas
    exact h keyId hhas
  · intro hopens
    exact Opens.mem hopens

/-- Where one identifier is touched, only its entry has to be looked at. -/
theorem of_agreeOff (h : v.Whole) (hoff : AgreeOff [keyId] v w) (hnew : keyId ∈ w.entries → w.Opens keyId) :
    w.Whole := by
  intro k hk
  by_cases heq : k = keyId
  · rw [heq] at hk ⊢
    exact hnew hk
  · have hnot : k ∉ [keyId] := by simpa using heq
    rcases hoff.mem hk with hin | hold
    · exact absurd hin hnot
    · exact hoff.opens hnot (h k hold)

theorem store (h : v.Whole) (keyId : KeyId) (secret : Octets) : (v.store keyId secret).2.Whole := by
  cases hresult : (v.store keyId secret).1 with
  | error e =>
    have hoff := agreeOff_store_error hresult
    intro k hk
    rcases hoff.mem hk with hin | hold
    · cases hin
    · exact hoff.opens List.not_mem_nil (h k hold)
  | ok =>
    apply h.of_agreeOff (agreeOff_store keyId secret v)
    intro _
    unfold Opens
    rw [burn_store hresult]
    rfl

theorem make (h : v.Whole) (call : VaultCall) : (call.make v).2.Whole := by
  cases call with
  | store keyId secret => exact h.store keyId secret
  | burn keyId =>
    apply h.of_agreeOff (agreeOff_burn keyId v)
    intro hin
    exact absurd hin (not_mem_burn keyId v)
  | discard keyId =>
    apply h.of_agreeOff (agreeOff_discard keyId v)
    intro hin
    exact absurd hin (not_mem_discard keyId v)
  | has keyId => exact h

end Whole

/-- The counter goes up with each burn that finds an entry. -/
theorem burned_burn (keyId : KeyId) (v : Vault) :
    (v.burn keyId).2.burned = v.burned + (v.has keyId).toNat := by
  unfold burn has
  rw [Std.ExtTreeMap.contains_eq_isSome_getElem?]
  cases v.entries[keyId]? <;> rfl

end Vault

/-! ## What the calls tell -/

/-- A call on a vault that was answered. -/
abbrev VaultEntry := VaultCall × VaultAnswer

namespace VaultEntry

/-- A secret that was stored under an identifier. -/
def storing (keyId : KeyId) (secret : Octets) : VaultEntry := (.store keyId secret, .stored (.ok ()))

/-- The call stored, burned or discarded under an identifier. -/
def Touches (keyId : KeyId) : VaultEntry → Prop
  | (.store k _, .stored (.ok ())) => k = keyId
  | (.burn k, _) => k = keyId
  | (.discard k, _) => k = keyId
  | _ => False

/-- The secret that a call stored under an identifier. -/
def stored? (keyId : KeyId) : VaultEntry → Option Octets
  | (.store k secret, .stored (.ok ())) => if k = keyId then some secret else none
  | _ => none

/-- The secret that a call handed out under an identifier. -/
def handedOut? (keyId : KeyId) : VaultEntry → Option Octets
  | (.burn k, .burned secret) => if k = keyId then secret else none
  | _ => none

/-- The call is a burn that found an entry. -/
def found : VaultEntry → Bool
  | (.burn _, .burned secret) => secret.isSome
  | _ => false

theorem stored?_eq_some {e : VaultEntry} {keyId : KeyId} {secret : Octets} (h : e.stored? keyId = some secret) :
    e = storing keyId secret := by
  unfold stored? at h
  split at h
  · split at h
    · next hk =>
      cases h
      rw [hk]
      rfl
    · cases h
  · cases h

end VaultEntry

open VaultEntry

variable {h : List VaultEntry} {v : Vault} {keyId : KeyId} {secret : Octets}

/-- Of the calls that stored, burned or discarded under an identifier, the last one stored a secret. -/
def StoredLast (keyId : KeyId) (secret : Octets) (h : List VaultEntry) : Prop :=
  ∃ before after, h = before ++ storing keyId secret :: after ∧ ∀ e ∈ after, ¬e.Touches keyId

/-- **One more call**: it stored the secret, or the secret was there and the call did not touch it. -/
theorem storedLast_concat {e : VaultEntry} :
    StoredLast keyId secret (h ++ [e]) ↔
      e = storing keyId secret ∨ StoredLast keyId secret h ∧ ¬e.Touches keyId := by
  constructor
  · rintro ⟨before, after, heq, hafter⟩
    rcases List.eq_nil_or_concat after with rfl | ⟨rest, last, rfl⟩
    · obtain ⟨-, hlast⟩ := List.append_inj' heq rfl
      exact .inl (List.singleton_inj.1 hlast)
    · rw [List.concat_eq_append, ← List.cons_append, ← List.append_assoc] at heq
      obtain ⟨hinit, hlast⟩ := List.append_inj' heq rfl
      cases List.singleton_inj.1 hlast
      simp only [List.concat_eq_append, List.mem_append, List.mem_singleton] at hafter
      exact .inr ⟨⟨before, rest, hinit, fun e he => hafter e (.inl he)⟩, hafter _ (.inr rfl)⟩
  · rintro (rfl | ⟨⟨before, after, rfl, hafter⟩, hlast⟩)
    · exact ⟨h, [], rfl, by simp⟩
    · refine ⟨before, after ++ [e], by simp, ?_⟩
      intro other hother
      rcases List.mem_append.1 hother with hin | hin
      · exact hafter other hin
      · rw [List.mem_singleton.1 hin]
        exact hlast

theorem not_storedLast_nil : ¬StoredLast keyId secret [] := by
  rintro ⟨before, after, heq, -⟩
  simp at heq

/-- The account of the calls on a vault tells what the vault holds. -/
structure Tells (h : List VaultEntry) (v : Vault) : Prop where
  whole : v.Whole
  burn : ∀ keyId secret, (v.burn keyId).1 = some secret ↔ StoredLast keyId secret h
  burned : v.burned = h.countP found
  once : ∀ keyId, (h.filterMap (handedOut? keyId)).Sublist (h.filterMap (stored? keyId))
  -- what is still held was stored behind all that was handed out
  held : ∀ keyId secret, StoredLast keyId secret h →
    (h.filterMap (handedOut? keyId) ++ [secret]).Sublist (h.filterMap (stored? keyId))

namespace Tells

theorem empty (sealer : Sealer) : Tells [] { sealer } where
  whole := by
    intro keyId hk
    simp at hk
  burn keyId secret := by
    constructor
    · intro hburn
      simp [Vault.burn] at hburn
    · intro hlast
      exact absurd hlast not_storedLast_nil
  burned := rfl
  once keyId := List.Sublist.slnil
  held keyId secret hlast := absurd hlast not_storedLast_nil

/-- A call that stores nothing takes out the entry that it touches, and hands out nothing else. -/
theorem concat_of_ne (ht : Tells h v) {w : Vault} {e : VaultEntry} (hnew : ∀ k s, e ≠ storing k s) (hwhole : w.Whole)
    (hburn : ∀ k s, (w.burn k).1 = some s ↔ (v.burn k).1 = some s ∧ ¬e.Touches k)
    (hburned : w.burned = v.burned + e.found.toNat)
    (hout : ∀ k s, e.handedOut? k = some s → (v.burn k).1 = some s ∧ e.Touches k) : Tells (h ++ [e]) w := by
  have hlast (k : KeyId) (s : Octets) : StoredLast k s (h ++ [e]) ↔ StoredLast k s h ∧ ¬e.Touches k := by
    rw [storedLast_concat]
    exact or_iff_right (hnew k s)
  have hstored (k : KeyId) : (h ++ [e]).filterMap (stored? k) = h.filterMap (stored? k) := by
    have hnone : e.stored? k = none := by
      apply Option.eq_none_iff_forall_ne_some.2
      intro s hs
      exact hnew k s (stored?_eq_some hs)
    simp [hnone]
  constructor
  · exact hwhole
  · intro k s
    rw [hburn, hlast, ht.burn]
  · rw [hburned, ht.burned, List.countP_append, List.countP_singleton]
    cases e.found <;> rfl
  · intro k
    rw [hstored, List.filterMap_append]
    cases hk : e.handedOut? k with
    | none => simpa [hk] using ht.once k
    | some s =>
      have hheld := ht.held k s ((ht.burn k s).1 (hout k s hk).1)
      simpa [hk] using hheld
  · intro k s hl
    obtain ⟨hold, htouch⟩ := (hlast k s).1 hl
    have hnone : e.handedOut? k = none := by
      apply Option.eq_none_iff_forall_ne_some.2
      intro s hs
      exact htouch (hout k s hs).2
    rw [hstored]
    simpa [hnone] using ht.held k s hold

/-- A secret that is stored stands behind all that was handed out. -/
theorem concat_storing (ht : Tells h v) (hok : (v.store keyId secret).1 = .ok ()) :
    Tells (h ++ [storing keyId secret]) (v.store keyId secret).2 := by
  have htouch (k : KeyId) : (storing keyId secret).Touches k ↔ keyId = k := Iff.rfl
  have hlast (k : KeyId) (s : Octets) : StoredLast k s (h ++ [storing keyId secret]) ↔
      k = keyId ∧ s = secret ∨ StoredLast k s h ∧ k ≠ keyId := by
    rw [storedLast_concat, htouch]
    simp [storing, eq_comm]
  have hout (k : KeyId) : (h ++ [storing keyId secret]).filterMap (handedOut? k) = h.filterMap (handedOut? k) := by
    simp [storing, handedOut?]
  have hstored (k : KeyId) : (h ++ [storing keyId secret]).filterMap (stored? k) =
      h.filterMap (stored? k) ++ (if keyId = k then [secret] else []) := by
    by_cases hk : keyId = k <;> simp [storing, stored?, hk]
  constructor
  · exact ht.whole.store keyId secret
  · intro k s
    rw [Vault.burn_after_store hok, hlast, ← ht.burn]
    by_cases hk : k = keyId <;> simp [hk, eq_comm]
  · rw [Vault.burned_store, ht.burned, List.countP_append]
    rfl
  · intro k
    rw [hout, hstored]
    exact (ht.once k).trans (List.sublist_append_left _ _)
  · intro k s hl
    rw [hout, hstored]
    rcases (hlast k s).1 hl with ⟨rfl, rfl⟩ | ⟨hold, hk⟩
    · rw [if_pos rfl]
      exact (ht.once k).append (List.Sublist.refl _)
    · exact (ht.held k s hold).trans (List.sublist_append_left _ _)

/-- **One more call** is told as well. -/
theorem concat (ht : Tells h v) (call : VaultCall) : Tells (h ++ [(call, (call.make v).1)]) (call.make v).2 := by
  have hwhole := ht.whole.make call
  cases call with
  | store keyId secret =>
    cases hresult : (v.store keyId secret).1 with
    | ok =>
      have hentry : (VaultCall.make (.store keyId secret) v).1 = .stored (.ok ()) := congrArg _ hresult
      rw [hentry]
      exact ht.concat_storing hresult
    | error e =>
      have hentry : (VaultCall.make (.store keyId secret) v).1 = .stored (.error e) := congrArg _ hresult
      have hoff := Vault.agreeOff_store_error hresult
      rw [hentry]
      apply ht.concat_of_ne
      · intro k s heq
        cases heq
      · exact hwhole
      · intro k s
        have hsame : ((VaultCall.make (.store keyId secret) v).2.burn k).1 = (v.burn k).1 := hoff.burn List.not_mem_nil
        rw [hsame]
        exact (and_iff_left id).symm
      · exact Vault.burned_store keyId secret v
      · intro k s hs
        cases hs
  | burn keyId =>
    apply ht.concat_of_ne
    · intro k s heq
      cases heq
    · exact hwhole
    · exact Vault.burn_after_burn keyId v
    · show (v.burn keyId).2.burned = v.burned + (v.burn keyId).1.isSome.toNat
      rw [Vault.burned_burn, ht.whole.has_eq]
    · intro k s hs
      by_cases hk : keyId = k
      · subst hk
        refine ⟨?_, rfl⟩
        simpa [handedOut?, VaultCall.make] using hs
      · simp [handedOut?, VaultCall.make, hk] at hs
  | discard keyId =>
    apply ht.concat_of_ne
    · intro k s heq
      cases heq
    · exact hwhole
    · exact Vault.burn_after_discard keyId v
    · rfl
    · intro k s hs
      cases hs
  | has keyId =>
    apply ht.concat_of_ne
    · intro k s heq
      cases heq
    · exact hwhole
    · intro k s
      exact (and_iff_left id).symm
    · rfl
    · intro k s hs
      cases hs

end Tells

/-! ## Calls on an inventory -/

/-- A call on the vault among those on an inventory. -/
def VaultEntry.of? : InventoryCall × InventoryAnswer → Option VaultEntry
  | (.vault call, .vault answer) => some (call, answer)
  | _ => none

/-- **The account** of calls on an inventory, in any order. -/
theorem tells_transcript {i : Inventory} (ht : Tells h i.vault) (calls : List InventoryCall) :
    Tells (h ++ (transcript InventoryCall.make calls i).1.filterMap VaultEntry.of?)
      (transcript InventoryCall.make calls i).2.vault := by
  induction calls generalizing h i with
  | nil => simpa [transcript] using ht
  | cons call calls ih =>
    rw [transcript_cons]
    cases call with
    | cache call =>
      have hrest := ih ((InventoryCall.vault_make_cache call i).symm ▸ ht)
      rw [List.filterMap_cons_none rfl]
      exact hrest
    | vault call =>
      have hrest := ih (i := ((InventoryCall.vault call).make i).2) (ht.concat call)
      simpa [VaultEntry.of?, InventoryCall.make, Inventory.onVault, List.append_assoc] using hrest

/-! ## Stores that succeed -/

/-- The call stores a secret. -/
def InventoryCall.storesSecret : InventoryCall → Bool
  | .vault (.store _ _) => true
  | _ => false

/-- A store asks for one nonce, and no other call does. -/
theorem InventoryCall.nonces_make (call : InventoryCall) (i : Inventory) :
    (call.make i).2.vault.sealer.nonces =
      { i.vault.sealer.nonces with used := i.vault.sealer.nonces.used + call.storesSecret.toNat } := by
  cases call with
  | cache call =>
    rw [vault_make_cache]
    rfl
  | vault call =>
    cases call with
    | store keyId secret =>
      show (i.vault.store keyId secret).2.sealer.nonces = _
      rw [Vault.sealer_store]
      rfl
    | burn keyId =>
      show (i.vault.burn keyId).2.sealer.nonces = _
      unfold Vault.burn
      cases i.vault.entries[keyId]? <;> rfl
    | discard | has => rfl

/-- **Calls** ask for as many nonces as there are stores among them. -/
theorem nonces_transcript (calls : List InventoryCall) (i : Inventory) :
    (transcript InventoryCall.make calls i).2.vault.sealer.nonces =
      { i.vault.sealer.nonces with used := i.vault.sealer.nonces.used + calls.countP (·.storesSecret) } := by
  induction calls generalizing i with
  | nil => rfl
  | cons call calls ih =>
    rw [transcript_cons, ih, call.nonces_make, List.countP_cons, Nat.add_assoc, Nat.add_comm (calls.countP _)]
    cases call.storesSecret <;> rfl

/-! ## What an inventory hands out -/

/-- What an inventory hands out after calls on its vault. -/
structure HandsOutOnce (h : List VaultEntry) (i : Inventory) : Prop where
  /-- A burn hands out the secret that was stored last, unless it was burned or discarded since, and nothing else. -/
  burn : ∀ keyId secret, (i.onVault (·.burn keyId)).1 = some secret ↔ StoredLast keyId secret h
  /-- Those that were handed out under an identifier are some of those stored under it, in their order. -/
  once : ∀ keyId, (h.filterMap (handedOut? keyId)).Sublist (h.filterMap (stored? keyId))
  /-- There are no more of them. -/
  length_le : ∀ keyId, (h.filterMap (handedOut? keyId)).length ≤ (h.filterMap (stored? keyId)).length
  /-- The inventory has a secret under an identifier if a burn hands it out. -/
  has : ∀ keyId, i.vault.has keyId = true ↔ ∃ secret, StoredLast keyId secret h
  /-- A discard finds one then. -/
  discard : ∀ keyId, (i.onVault (·.discard keyId)).1 = true ↔ ∃ secret, StoredLast keyId secret h
  /-- The identifiers with a secret are counted. -/
  entries : ∃ keyIds : Finset KeyId, (∀ keyId, keyId ∈ keyIds ↔ ∃ secret, StoredLast keyId secret h) ∧
    i.stats.vaultEntries = keyIds.card
  /-- So are the burns that found a secret. -/
  burned : i.stats.burnedTotal = h.countP found

theorem Tells.handsOutOnce {i : Inventory} (ht : Tells h i.vault) : HandsOutOnce h i := by
  have hhas (keyId : KeyId) : i.vault.has keyId = true ↔ ∃ secret, StoredLast keyId secret h := by
    rw [ht.whole.has_eq, Option.isSome_iff_exists]
    exact exists_congr (ht.burn keyId)
  constructor
  · exact ht.burn
  · exact ht.once
  · intro keyId
    exact (ht.once keyId).length_le
  · exact hhas
  · exact hhas
  · refine ⟨i.vault.entries.keys.toFinset, ?_, ?_⟩
    · intro keyId
      rw [List.mem_toFinset, Std.ExtTreeMap.mem_keys]
      exact hhas keyId
    · rw [List.toFinset_card_of_nodup i.vault.entries.nodup_keys, Std.ExtTreeMap.length_keys]
      rfl
  · exact ht.burned

/-- **Secrets are handed out once.** Whatever calls are made on an inventory that was empty, a burn hands out the secret
that was stored last under the identifier and was not burned or discarded since; a further store succeeds if the random
source gives the next nonce; and neither half of the inventory sees or changes the other. -/
theorem secrets_handed_out_once (ceiling : Nat) (sealer : Sealer) (calls : List InventoryCall) :
    let start := Inventory.empty ceiling sealer
    let all := transcript InventoryCall.make calls start
    let onCache := transcript InventoryCall.make (calls.filter (·.isCache)) start
    let onVault := transcript InventoryCall.make (calls.filter (!·.isCache)) start
    HandsOutOnce (all.1.filterMap VaultEntry.of?) all.2 ∧
      (∀ keyId secret, (all.2.onVault (·.store keyId secret)).1 =
        match sealer.nonces.item (sealer.nonces.used + calls.countP (·.storesSecret)) with
        | .ok _ => .ok ()
        | .error reason => .error (.rng reason)) ∧
      (onCache.1 = all.1.filter (·.1.isCache) ∧ all.2.cache = onCache.2.cache) ∧
      (onVault.1 = all.1.filter (!·.1.isCache) ∧ all.2.vault = onVault.2.vault) := by
  intro start all onCache onVault
  refine ⟨?_, ?_, InventoryCall.transcript_cache calls start, InventoryCall.transcript_vault calls start⟩
  · have htells : Tells [] start.vault := .empty sealer
    exact (tells_transcript htells calls).handsOutOnce
  · intro keyId secret
    have hnonces : all.2.vault.sealer.nonces =
        { sealer.nonces with used := sealer.nonces.used + calls.countP (·.storesSecret) } :=
      nonces_transcript calls start
    have hstore := all.2.vault.store_fst keyId secret
    rw [hnonces] at hstore
    exact hstore

end CoinRelay
