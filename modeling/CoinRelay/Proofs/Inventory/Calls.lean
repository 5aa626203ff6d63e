import CoinRelay.Proofs.Inventory.Refinement

/-!
# Calls on an inventory

The calls on the cache of an inventory and those on its vault, one after the other and in any order.

- `VaultCall`, `InventoryCall`: the calls as data;
- `transcript`: calls that are made, each with its answer, and what they leave;
- `transcript_cache`, `transcript_vault`: the two halves of an inventory leave each other alone. Either answers the same
  and ends the same when the calls on the other are left out.
-/

namespace CoinRelay

open Crypto

/-! ## Calls -/

/-- A call on the vault of an inventory. -/
inductive VaultCall
  | store (keyId : KeyId) (secret : Octets)
  | burn (keyId : KeyId)
  | discard (keyId : KeyId)
  | has (keyId : KeyId)
  deriving DecidableEq, Repr

/-- What a call on a vault answers. -/
inductive VaultAnswer
  | stored (result : Except CryptoError Unit)
  | burned (secret : Option Octets)
  | discarded (found : Bool)
  | present (found : Bool)

/-- Makes a call on a vault. -/
def VaultCall.make (call : VaultCall) (v : Vault) : VaultAnswer × Vault :=
  match call with
  | store keyId secret => (v.store keyId secret).map .stored id
  | burn keyId => (v.burn keyId).map .burned id
  | discard keyId => (v.discard keyId).map .discarded id
  | has keyId => (.present (v.has keyId), v)

/-- A call on an inventory. -/
inductive InventoryCall
  | cache (call : CacheCall)
  | vault (call : VaultCall)
  deriving DecidableEq, Repr

/-- What a call on an inventory answers. -/
inductive InventoryAnswer
  | cache (answer : CacheAnswer)
  | vault (answer : VaultAnswer)

namespace InventoryCall

/-- Makes a call on an inventory. -/
def make (call : InventoryCall) (i : Inventory) : InventoryAnswer × Inventory :=
  match call with
  | cache call => (call.onInventory i).map .cache id
  | vault call => (i.onVault call.make).map .vault id

/-- Whether a call is one on the cache. The others are on the vault. -/
def isCache : InventoryCall → Bool
  | cache _ => true
  | vault _ => false

/-- Whether a call puts a coin into the cache. -/
def storesCoin : InventoryCall → Bool
  | cache (.store _) => true
  | cache _ | vault _ => false

end InventoryCall

/-! ## One after the other -/

/-- Makes calls one after the other; gives each of them with its answer, and what they leave. -/
def transcript {κ α σ : Type} (make : κ → σ → α × σ) : List κ → σ → List (κ × α) × σ
  | [], s => ([], s)
  | call :: calls, s =>
    let (answer, s) := make call s
    let (rest, s) := transcript make calls s
    ((call, answer) :: rest, s)

section Transcripts

variable {κ α σ : Type} {make : κ → σ → α × σ}

theorem transcript_cons (call : κ) (calls : List κ) (s : σ) :
    transcript make (call :: calls) s =
      ((call, (make call s).1) :: (transcript make calls (make call s).2).1,
        (transcript make calls (make call s).2).2) := rfl

theorem transcript_append (calls more : List κ) (s : σ) :
    transcript make (calls ++ more) s =
      ((transcript make calls s).1 ++ (transcript make more (transcript make calls s).2).1,
        (transcript make more (transcript make calls s).2).2) := by
  induction calls generalizing s with
  | nil => rfl
  | cons call calls ih => rw [List.cons_append, transcript_cons, transcript_cons, ih, List.cons_append]

/-- What every call keeps is kept by calls one after the other. -/
theorem transcript_induction {P : σ → Prop} (hcall : ∀ call s, P s → P (make call s).2) (calls : List κ) {s : σ}
    (h : P s) : P (transcript make calls s).2 := by
  induction calls generalizing s with
  | nil => exact h
  | cons call calls ih => exact ih (hcall call s h)

/-- Of two states in a relation, one sees all calls and the other only some. If the relation settles the answers to
those and the others keep to it, then the answers to those are the same. -/
theorem transcript_filter {p : κ → Bool} {R : σ → σ → Prop}
    (hmake : ∀ call, p call = true → ∀ s t, R s t → (make call s).1 = (make call t).1 ∧ R (make call s).2 (make call t).2)
    (hskip : ∀ call, p call = false → ∀ s t, R s t → R (make call s).2 t) (calls : List κ) {s t : σ} (h : R s t) :
    (transcript make (calls.filter p) t).1 = (transcript make calls s).1.filter (fun entry => p entry.1) ∧
      R (transcript make calls s).2 (transcript make (calls.filter p) t).2 := by
  induction calls generalizing s t with
  | nil => exact ⟨rfl, h⟩
  | cons call calls ih =>
    rw [transcript_cons]
    cases hp : p call with
    | true =>
      obtain ⟨hanswer, hnext⟩ := hmake call hp s t h
      obtain ⟨hanswers, hend⟩ := ih hnext
      simp only [List.filter_cons, hp, if_true, transcript_cons, hanswer, hanswers]
      exact ⟨trivial, hend⟩
    | false =>
      simp only [List.filter_cons, hp, Bool.false_eq_true, if_false]
      exact ih (hskip call hp s t h)

end Transcripts

/-! ## Halves -/

namespace InventoryCall

variable {i j : Inventory}

/-- A call on the cache does not touch the vault. -/
theorem vault_make_cache (call : CacheCall) (i : Inventory) : ((cache call).make i).2.vault = i.vault := by
  cases call <;> rfl

/-- A call on the vault does not touch the cache. -/
theorem cache_make_vault (call : VaultCall) (i : Inventory) : ((vault call).make i).2.cache = i.cache := rfl

/-- A call on the cache sees nothing else. -/
theorem make_cache_congr (call : CacheCall) (h : i.cache = j.cache) :
    ((cache call).make i).1 = ((cache call).make j).1 ∧
      ((cache call).make i).2.cache = ((cache call).make j).2.cache := by
  cases i
  cases j
  cases h
  cases call <;> exact ⟨rfl, rfl⟩

/-- A call on the vault sees nothing else. -/
theorem make_vault_congr (call : VaultCall) (h : i.vault = j.vault) :
    ((vault call).make i).1 = ((vault call).make j).1 ∧
      ((vault call).make i).2.vault = ((vault call).make j).2.vault := by
  cases i
  cases j
  cases h
  exact ⟨rfl, rfl⟩

/-- **The cache does not see the vault**: without the calls on the vault, those on the cache are answered the same and
leave the same cache. -/
theorem transcript_cache (calls : List InventoryCall) (i : Inventory) :
    (transcript make (calls.filter (·.isCache)) i).1 = (transcript make calls i).1.filter (·.1.isCache) ∧
      (transcript make calls i).2.cache = (transcript make (calls.filter (·.isCache)) i).2.cache := by
  refine transcript_filter (R := fun (i j : Inventory) => i.cache = j.cache) ?_ ?_ calls rfl
  · rintro (call | call) hp i j h
    · exact make_cache_congr call h
    · cases hp
  · rintro (call | call) hp i j h
    · cases hp
    · exact (cache_make_vault call i).trans h

/-- **The vault does not see the cache**: without the calls on the cache, those on the vault are answered the same and
leave the same vault. -/
theorem transcript_vault (calls : List InventoryCall) (i : Inventory) :
    (transcript make (calls.filter (!·.isCache)) i).1 = (transcript make calls i).1.filter (!·.1.isCache) ∧
      (transcript make calls i).2.vault = (transcript make (calls.filter (!·.isCache)) i).2.vault := by
  refine transcript_filter (R := fun (i j : Inventory) => i.vault = j.vault) ?_ ?_ calls rfl
  · rintro (call | call) hp i j h
    · cases hp
    · exact make_vault_congr call h
  · rintro (call | call) hp i j h
    · exact (vault_make_cache call i).trans h
    · cases hp

end InventoryCall

end CoinRelay
