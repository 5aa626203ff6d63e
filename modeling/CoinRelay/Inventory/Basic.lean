import CoinRelay.Inventory.Cache
import CoinRelay.Inventory.Vault

/-!
# Inventories

What a user holds: the public coins of others to send with, and the secrets of one's own coins to receive with.
-/

namespace CoinRelay

/-- The room for public coins unless another is asked for. -/
def defaultCeiling : Nat := 64 * 1024

/-- A cache of public coins and a vault of secrets. -/
structure Inventory where
  cache : Cache
  vault : Vault

namespace Inventory

/-- What an inventory counts. -/
structure Stats where
  cachedCoins : Nat
  cacheBytes : Nat
  cacheCeiling : Nat
  vaultEntries : Nat
  burnedTotal : Nat
  evictedTotal : Nat
  deriving DecidableEq, Repr

/-- An empty inventory with room for coins and a sealer for secrets. -/
def empty (ceiling : Nat) (sealer : Crypto.Sealer) : Inventory :=
  { cache := { ceiling }, vault := { sealer } }

/-- The counters of an inventory. -/
def stats (i : Inventory) : Stats where
  cachedCoins := i.cache.entries.size
  cacheBytes := i.cache.bytes
  cacheCeiling := i.cache.ceiling
  vaultEntries := i.vault.entries.size
  burnedTotal := i.vault.burned
  evictedTotal := i.cache.evicted

/-- Runs an operation of the cache. -/
def onCache {α : Type} (f : Cache → α × Cache) (i : Inventory) : α × Inventory :=
  let (a, cache) := f i.cache
  (a, { i with cache })

/-- Runs an operation of the vault. -/
def onVault {α : Type} (f : Vault → α × Vault) (i : Inventory) : α × Inventory :=
  let (a, vault) := f i.vault
  (a, { i with vault })

/-- Drops secrets unopened. -/
def discardSecrets (keyIds : List KeyId) (i : Inventory) : Inventory :=
  { i with vault := keyIds.foldl (fun v keyId => (v.discard keyId).2) i.vault }

/-! ## Text -/

/-- Counters in one line. -/
def Stats.describe (s : Stats) : String :=
  "InventoryStats \x7b cached_coins: " ++ toString s.cachedCoins ++ ", cache_bytes: " ++ toString s.cacheBytes ++
    ", cache_ceiling: " ++ toString s.cacheCeiling ++ ", vault_entries: " ++ toString s.vaultEntries ++
    ", burned_total: " ++ toString s.burnedTotal ++ ", evicted_total: " ++ toString s.evictedTotal ++ " \x7d"

/-- What an inventory tells of itself: its counters. -/
def describe (i : Inventory) : String := "Inventory \x7b stats: " ++ i.stats.describe ++ " \x7d"

end Inventory

end CoinRelay
