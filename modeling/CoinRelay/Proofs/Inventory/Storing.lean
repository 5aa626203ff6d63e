import CoinRelay.Proofs.Inventory.Vault

/-!
# Storing several secrets

A secret is stored if the random source gives a nonce for it, and several are if it gives as many (`Sealer.Seals`). A
vault that stored secrets under new identifiers has them on top of what it had (`Vault.Gains`, `gains_storeAll`), and
when they are dropped again it has what it had before (`AgreeOff.drops`, `Drops.entries_eq`).

- `store_fst`, `store_of_seals`, `store_of_not_seals`: one secret, when there is a nonce and when there is none;
- `discardSecrets_eq`: dropping several secrets is a matter of the vault (`discardAll`).
-/

namespace CoinRelay

open Crypto

namespace Crypto.Sealer

variable {s : Sealer}

/-- The random source gives the next `n` nonces. -/
def Seals (n : Nat) (s : Sealer) : Prop := ∀ i < n, ∃ nonce, s.nonces.item (s.nonces.used + i) = .ok nonce

theorem seals_zero (s : Sealer) : s.Seals 0 := fun _ hi => absurd hi (Nat.not_lt_zero _)

/-- What a sealer is after it sealed a secret, or failed to. -/
theorem enclose_snd (s : Sealer) (keyId : KeyId) (secret : Octets) :
    (s.enclose keyId secret).2 = { s with nonces := s.nonces.next.2 } := by
  unfold enclose
  simp only
  split <;> rfl

/-- The next nonces are the first of them and those after it. -/
theorem seals_succ {n : Nat} : s.Seals (n + 1) ↔ s.Seals 1 ∧ Seals n { s with nonces := s.nonces.next.2 } := by
  have hnext (i : Nat) : s.nonces.used + 1 + i = s.nonces.used + (i + 1) := by omega
  constructor
  · intro h
    refine ⟨fun i hi => h i (by omega), fun i hi => ?_⟩
    obtain ⟨nonce, hnonce⟩ := h (i + 1) (by omega)
    exact ⟨nonce, (congrArg s.nonces.item (hnext i)).trans hnonce⟩
  · rintro ⟨hfirst, hrest⟩ i hi
    cases i with
    | zero => exact hfirst 0 Nat.one_pos
    | succ i =>
      obtain ⟨nonce, hnonce⟩ := hrest i (by omega)
      exact ⟨nonce, (congrArg s.nonces.item (hnext i)).symm.trans hnonce⟩

/-- A secret is sealed if there is a nonce for it. -/
theorem enclose_of_seals (h : s.Seals 1) (keyId : KeyId) (secret : Octets) :
    ∃ sealed, (s.enclose keyId secret).1 = .ok sealed := by
  obtain ⟨nonce, hnonce⟩ := h 0 Nat.one_pos
  have hfirst : s.nonces.next.1 = .ok nonce := hnonce
  unfold enclose
  simp only [hfirst]
  exact ⟨_, rfl⟩

/-- The random source tells why there is none. -/
theorem enclose_of_not_seals (h : ¬s.Seals 1) (keyId : KeyId) (secret : Octets) :
    ∃ reason, (s.enclose keyId secret).1 = .error (.rng reason) := by
  unfold enclose
  cases hnonce : s.nonces.next.1 with
  | error reason =>
    simp only [hnonce]
    exact ⟨reason, rfl⟩
  | ok nonce =>
    refine absurd (fun i hi => ?_) h
    obtain rfl : i = 0 := by omega
    exact ⟨nonce, hnonce⟩

end Crypto.Sealer

namespace Vault

variable {u v w : Vault} {keyId : KeyId} {keyIds : List KeyId} {secrets : List (KeyId × Octets)}

/-! ## One secret -/

/-- Storing takes a nonce, or finds that there is none. -/
theorem sealer_store (keyId : KeyId) (secret : Octets) (v : Vault) :
    (v.store keyId secret).2.sealer = { v.sealer with nonces := v.sealer.nonces.next.2 } := by
  rw [← v.sealer.enclose_snd keyId secret]
  unfold store
  simp only
  split <;> rfl

theorem burned_store (keyId : KeyId) (secret : Octets) (v : Vault) : (v.store keyId secret).2.burned = v.burned := by
  unfold store
  simp only
  split <;> rfl

/-- A secret is stored if there is a nonce for it, and otherwise the random source tells why there is none. -/
theorem store_fst (keyId : KeyId) (secret : Octets) (v : Vault) :
    (v.store keyId secret).1 =
      match v.sealer.nonces.item v.sealer.nonces.used with
      | .ok _ => .ok ()
      | .error reason => .error (.rng reason) := by
  unfold store Sealer.enclose Supply.next
  cases v.sealer.nonces.item v.sealer.nonces.used <;> rfl

/-- A secret is stored if there is a nonce for it. -/
theorem store_of_seals (h : v.sealer.Seals 1) (keyId : KeyId) (secret : Octets) :
    (v.store keyId secret).1 = .ok () ∧
      ∃ sealed, (v.store keyId secret).2.entries = v.entries.insert keyId sealed := by
  obtain ⟨sealed, hsealed⟩ := Sealer.enclose_of_seals h keyId secret
  unfold store
  simp only [hsealed]
  exact ⟨trivial, sealed, rfl⟩

/-- Nothing is stored if there is none. -/
theorem store_of_not_seals (h : ¬v.sealer.Seals 1) (keyId : KeyId) (secret : Octets) :
    ∃ reason, (v.store keyId secret).1 = .error (.rng reason) ∧ (v.store keyId secret).2.entries = v.entries := by
  obtain ⟨reason, hreason⟩ := Sealer.enclose_of_not_seals h keyId secret
  unfold store
  simp only [hreason]
  exact ⟨reason, rfl, trivial⟩

/-! ## Several secrets -/

/-- Stores secrets one after the other. -/
def storeAll (secrets : List (KeyId × Octets)) (v : Vault) : Vault :=
  secrets.foldl (fun v entry => (v.store entry.1 entry.2).2) v

/-- Storing touches the identifiers of the secrets. -/
theorem agreeOff_storeAll (secrets : List (KeyId × Octets)) (v : Vault) :
    AgreeOff (secrets.map (·.1)) v (v.storeAll secrets) := by
  induction secrets generalizing v with
  | nil => exact .refl _ v
  | cons entry secrets ih =>
    have hfirst := agreeOff_store entry.1 entry.2 v
    refine (hfirst.mono (List.cons_subset_cons _ (List.nil_subset (secrets.map (·.1))))).trans ?_
    exact (ih _).mono (List.subset_cons_self _ _)

theorem burned_storeAll (secrets : List (KeyId × Octets)) (v : Vault) : (v.storeAll secrets).burned = v.burned := by
  induction secrets generalizing v with
  | nil => rfl
  | cons entry secrets ih => exact (ih _).trans (burned_store entry.1 entry.2 v)

/-- **Secrets under different identifiers** are all handed out, if there are nonces for them. -/
theorem burn_storeAll (hseals : v.sealer.Seals secrets.length) (hnd : (secrets.map (·.1)).Nodup) :
    ∀ entry ∈ secrets, ((v.storeAll secrets).burn entry.1).1 = some entry.2 := by
  induction secrets generalizing v with
  | nil => exact fun _ he => absurd he List.not_mem_nil
  | cons entry secrets ih =>
    obtain ⟨hfirst, hrest⟩ := Sealer.seals_succ.1 hseals
    obtain ⟨hnew, hnd⟩ := List.nodup_cons.1 hnd
    rw [← sealer_store entry.1 entry.2 v] at hrest
    have hstore := (store_of_seals hfirst entry.1 entry.2).1
    refine List.forall_mem_cons.2 ⟨?_, ih hrest hnd⟩
    exact ((agreeOff_storeAll secrets _).burn hnew).trans (burn_store hstore)

/-- **Secrets under new identifiers** add to the entries. -/
theorem size_storeAll (hseals : v.sealer.Seals secrets.length) (hnd : (secrets.map (·.1)).Nodup)
    (hfresh : ∀ entry ∈ secrets, entry.1 ∉ v.entries) :
    (v.storeAll secrets).entries.size = v.entries.size + secrets.length := by
  induction secrets generalizing v with
  | nil => rfl
  | cons entry secrets ih =>
    obtain ⟨hfirst, hrest⟩ := Sealer.seals_succ.1 hseals
    obtain ⟨hnew, hnd⟩ := List.nodup_cons.1 hnd
    obtain ⟨hkey, hfresh⟩ := List.forall_mem_cons.1 hfresh
    obtain ⟨-, sealed, hentries⟩ := store_of_seals hfirst entry.1 entry.2
    rw [← sealer_store entry.1 entry.2 v] at hrest
    have hlater : ∀ other ∈ secrets, other.1 ∉ (v.store entry.1 entry.2).2.entries := by
      intro other ho hin
      rcases (agreeOff_store entry.1 entry.2 v).mem hin with hsame | hold
      · have hmem : other.1 ∈ secrets.map (·.1) := List.mem_map_of_mem ho
        rw [List.mem_singleton.1 hsame] at hmem
        exact hnew hmem
      · exact hfresh other ho hold
    have hnot : ¬v.entries.contains entry.1 := hkey
    have hsize := ih hrest hnd hlater
    rw [hentries, Std.ExtTreeMap.size_insert, if_neg hnot] at hsize
    rw [List.length_cons]
    exact hsize.trans (by omega)

/-- A vault has secrets on top of what another has. -/
structure Gains (secrets : List (KeyId × Octets)) (v w : Vault) : Prop where
  off : AgreeOff (secrets.map (·.1)) v w
  opens : ∀ entry ∈ secrets, (w.burn entry.1).1 = some entry.2
  size : w.entries.size = v.entries.size + secrets.length
  burned : w.burned = v.burned

theorem gains_storeAll (hseals : v.sealer.Seals secrets.length) (hnd : (secrets.map (·.1)).Nodup)
    (hfresh : ∀ entry ∈ secrets, entry.1 ∉ v.entries) : Gains secrets v (v.storeAll secrets) :=
  ⟨agreeOff_storeAll secrets v, burn_storeAll hseals hnd, size_storeAll hseals hnd hfresh, burned_storeAll secrets v⟩

/-! ## Dropping them again -/

/-- Drops secrets unopened. -/
def discardAll (keyIds : List KeyId) (v : Vault) : Vault := { v with entries := keyIds.foldl (·.erase ·) v.entries }

theorem discardSecrets_eq (keyIds : List KeyId) (i : Inventory) :
    i.discardSecrets keyIds = { i with vault := i.vault.discardAll keyIds } := by
  unfold Inventory.discardSecrets discardAll
  congr 1
  generalize i.vault = v
  induction keyIds generalizing v with
  | nil => rfl
  | cons keyId keyIds ih => exact ih _

theorem getElem?_discardAll (keyIds : List KeyId) (v : Vault) (keyId : KeyId) :
    (v.discardAll keyIds).entries[keyId]? = if keyId ∈ keyIds then none else v.entries[keyId]? := by
  unfold discardAll
  simp only
  generalize v.entries = entries
  induction keyIds generalizing entries with
  | nil => rfl
  | cons first keyIds ih =>
    rw [List.foldl_cons, ih, Ordered.getElem?_erase_eq]
    by_cases hin : keyId ∈ keyIds
    · simp [hin]
    · by_cases hfirst : first = keyId
      · simp [hfirst]
      · simp [hin, hfirst, Ne.symm hfirst]

/-- A vault has what another has, without the secrets under some identifiers. -/
structure Drops (keyIds : List KeyId) (v w : Vault) : Prop where
  key : w.sealer.key = v.sealer.key
  entries : ∀ keyId, w.entries[keyId]? = if keyId ∈ keyIds then none else v.entries[keyId]?
  burned : w.burned = v.burned

/-- What was touched alone is dropped. -/
theorem AgreeOff.drops (h : AgreeOff keyIds v w) (hburned : w.burned = v.burned) :
    Drops keyIds v (w.discardAll keyIds) := by
  refine ⟨h.key, fun keyId => ?_, hburned⟩
  rw [getElem?_discardAll]
  split
  · rfl
  · next hk => exact h.entries keyId hk

namespace Drops

/-- Nothing else is touched. -/
theorem agreeOff (h : Drops keyIds v w) : AgreeOff keyIds v w := by
  refine ⟨h.key, fun keyId hk => ?_⟩
  rw [h.entries, if_neg hk]

/-- It does not matter what was under the identifiers before. -/
theorem of_agreeOff (h : Drops keyIds v w) (hoff : AgreeOff keyIds u v) (hburned : v.burned = u.burned) :
    Drops keyIds u w := by
  refine ⟨h.key.trans hoff.key, fun keyId => ?_, h.burned.trans hburned⟩
  rw [h.entries]
  split
  · rfl
  · next hk => exact hoff.entries keyId hk

/-- **Dropping what was not there** leaves the entries as they were. -/
theorem entries_eq (h : Drops keyIds v w) (hfresh : ∀ keyId ∈ keyIds, keyId ∉ v.entries) : w.entries = v.entries := by
  refine Std.ExtTreeMap.ext_getElem? fun {keyId} => ?_
  rw [h.entries]
  split
  · next hin => exact (Std.ExtTreeMap.getElem?_eq_none (hfresh keyId hin)).symm
  · rfl

end Drops

end Vault

end CoinRelay
