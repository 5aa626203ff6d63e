import CoinRelay.Tier
import Mathlib.Data.List.Induction

/-!
# Counts of tiers

Counting tiers one at a time gives their tally, or breaks off because a tier is listed more often than 32 bits can tell
(`Tier.Counts.tally?_eq_some_iff`).

- `Tier.Counts.Fits`: no tier is listed too often, as in any list that is short enough
  (`Tier.Counts.fits_of_length_lt`);
- `Tier.Counts.toNat_get_tally`, `Tier.Counts.sum_tally`: a tally loses nothing then.
-/

namespace CoinRelay.Tier

/-- Every tier is one of the three. -/
theorem sum_count (ts : List Tier) : ts.count .gold + ts.count .silver + ts.count .bronze = ts.length := by
  induction ts with
  | nil => rfl
  | cons t ts ih =>
    rw [List.length_cons, ← ih]
    cases t <;>
      simp only [List.count_cons_self, List.count_cons_of_ne, ne_eq, reduceCtorEq, not_false_eq_true] <;> omega

namespace Counts

variable {ts : List Tier}

/-- No tier is listed more often than 32 bits can tell. -/
def Fits (ts : List Tier) : Prop := ∀ t, ts.count t < UInt32.size

theorem fits_of_length_lt (h : ts.length < UInt32.size) : Fits ts := fun _ => Nat.lt_of_le_of_lt List.count_le_length h

/-- **A tally** loses nothing of what can be counted in 32 bits. -/
theorem toNat_get_tally (h : Fits ts) (tier : Tier) : ((tally ts).get tier).toNat = ts.count tier := by
  rw [get_tally]
  exact UInt32.toNat_ofNat_of_lt' (h tier)

theorem sum_tally (h : Fits ts) : (tally ts).sum = ts.length := by
  rw [← sum_count, ← toNat_get_tally h, ← toNat_get_tally h, ← toNat_get_tally h]
  rfl

/-- One more tier. -/
theorem tally_concat (ts : List Tier) (t : Tier) : tally (ts ++ [t]) = (tally ts).set t ((tally ts).get t + 1) := by
  cases t <;> simp [tally, set, get, List.count_append, UInt32.ofNat_add]

theorem fits_concat_iff (ts : List Tier) (t : Tier) : Fits (ts ++ [t]) ↔ Fits ts ∧ ts.count t + 1 < UInt32.size := by
  have hcount : ∀ u, (ts ++ [t]).count u = ts.count u + if t = u then 1 else 0 := by
    intro u
    rw [List.count_append, List.count_singleton]
    simp only [beq_iff_eq]
  unfold Fits
  simp only [hcount]
  constructor
  · intro h
    refine ⟨fun u => Nat.lt_of_le_of_lt (Nat.le_add_right _ _) (h u), ?_⟩
    simpa using h t
  · rintro ⟨h, ht⟩ u
    by_cases hu : t = u
    · subst hu
      simpa using ht
    · simpa [hu] using h u

/-- **Counting one at a time** gives the tally, unless a tier is listed too often. -/
theorem tally?_eq_some_iff {c : Counts} : tally? ts = some c ↔ Fits ts ∧ c = tally ts := by
  induction ts using List.reverseRecOn generalizing c with
  | nil =>
    have hfits : Fits [] := fits_of_length_lt (by decide)
    rw [tally?, List.foldlM_nil, Option.pure_def, Option.some.injEq, eq_comm]
    exact ⟨fun h => ⟨hfits, h⟩, fun h => h.2⟩
  | append_singleton ts t ih =>
    have hconcat : tally? (ts ++ [t]) = (tally? ts).bind fun c => c.add? t 1 := by
      simp [tally?, List.foldlM_append]
    rw [hconcat, Option.bind_eq_some_iff, fits_concat_iff, tally_concat]
    simp only [ih, and_assoc, exists_and_left, exists_eq_left]
    refine and_congr_right fun hfits => ?_
    -- the count that grows is exact so far, so the bound on it is the bound on the number of tiers
    rw [add?, toNat_get_tally hfits]
    split
    · next hlt => simpa [eq_comm] using fun _ => hlt
    · next hle => simpa using fun hlt => absurd hlt hle

end Counts

end CoinRelay.Tier
