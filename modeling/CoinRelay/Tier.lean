/-!
# Tiers

The three strengths of a coin, and how many coins of each there are.

- `Tier.atOrBelow`: the tiers that may stand in for a tier, best first;
- `Tier.Counts`: a 32-bit count for each tier; `Counts.add?`, `Counts.tally?` and `Counts.total?` refuse to pass the
  bound;
- `Tier.Counts.tally`: what `Counts.tally?` counts if it does not have to.
-/

namespace CoinRelay

/-- The strength of a coin's key, strongest first. -/
inductive Tier
  | gold
  | silver
  | bronze
  deriving DecidableEq, Repr, Inhabited

namespace Tier

/-- The tiers from the strongest to the weakest. -/
def all : List Tier := [gold, silver, bronze]

/-- The place of a tier in `all`. -/
def rank : Tier → Nat
  | gold => 0
  | silver => 1
  | bronze => 2

/-- The octet that stands for a tier. -/
def code : Tier → UInt8
  | gold => 0
  | silver => 1
  | bronze => 2

/-- The tier that an octet stands for. -/
def ofCode? (b : UInt8) : Option Tier :=
  match b.toNat with
  | 0 => some gold
  | 1 => some silver
  | 2 => some bronze
  | _ => none

def name : Tier → String
  | gold => "GOLD"
  | silver => "SILVER"
  | bronze => "BRONZE"

/-- The name of a tier in a sentence. -/
def title : Tier → String
  | gold => "Gold"
  | silver => "Silver"
  | bronze => "Bronze"

/-- The tiers weaker than a tier, strongest first. -/
def fallbacks : Tier → List Tier
  | gold => [silver, bronze]
  | silver => [bronze]
  | bronze => []

/-- A tier and its fallbacks. -/
def atOrBelow (t : Tier) : List Tier := t :: t.fallbacks

/-- The tiers in the order of their ranks. -/
def sort (ts : List Tier) : List Tier := ts.mergeSort fun a b => a.rank ≤ b.rank

/-- The weakest of the tiers. -/
def weakest? (ts : List Tier) : Option Tier := (sort ts).getLast?

theorem ofCode?_code (t : Tier) : ofCode? t.code = some t := by
  cases t <;> rfl

theorem code_of_ofCode? {b : UInt8} {t : Tier} (h : ofCode? b = some t) : t.code = b := by
  unfold ofCode? at h
  split at h <;> simp_all only [Option.some.injEq, reduceCtorEq]
  all_goals
    subst h
    exact UInt8.toNat_inj.1 (by simp_all [code])

/-! ## Counts -/

/-- A count for each tier. -/
structure Counts where
  gold : UInt32 := 0
  silver : UInt32 := 0
  bronze : UInt32 := 0
  deriving DecidableEq, Repr, Inhabited

namespace Counts

/-- The count of one tier. -/
def get (c : Counts) : Tier → UInt32
  | .gold => c.gold
  | .silver => c.silver
  | .bronze => c.bronze

/-- Replaces the count of one tier. -/
def set (c : Counts) (t : Tier) (n : UInt32) : Counts :=
  match t with
  | .gold => { c with gold := n }
  | .silver => { c with silver := n }
  | .bronze => { c with bronze := n }

/-- Adds to the count of one tier, unless the count would pass 32 bits. -/
def add? (c : Counts) (t : Tier) (n : UInt32) : Option Counts :=
  if (c.get t).toNat + n.toNat < UInt32.size then some (c.set t (c.get t + n)) else none

/-- The sum of the counts without a bound. -/
def sum (c : Counts) : Nat := c.gold.toNat + c.silver.toNat + c.bronze.toNat

/-- The sum of the counts, unless it passes 32 bits. -/
def total? (c : Counts) : Option UInt32 :=
  if c.sum < UInt32.size then some (UInt32.ofNat c.sum) else none

/-- Counts the tiers listed one at a time, unless a count would pass 32 bits. -/
def tally? (ts : List Tier) : Option Counts := ts.foldlM (fun c t => c.add? t 1) {}

/-- How many of the tiers listed are of each tier, where no count passes 32 bits. -/
def tally (ts : List Tier) : Counts where
  gold := UInt32.ofNat (ts.count .gold)
  silver := UInt32.ofNat (ts.count .silver)
  bronze := UInt32.ofNat (ts.count .bronze)

theorem get_tally (ts : List Tier) (t : Tier) : (tally ts).get t = UInt32.ofNat (ts.count t) := by
  cases t <;> rfl

end Counts

end Tier

end CoinRelay
