import Mathlib.Data.List.Perm.Basic
import Std.Data.ExtTreeMap

/-!
# Maps whose keys only grow

A map under ever greater numbers lists its values in the order they were put in.

- `getElem?_insert_eq`, `getElem?_erase_eq`, `getElem?_modify_eq`: what changes under a key, for keys of any kind;
- `toList_insert_of_lt`: a value under a number beyond all others comes last;
- `toList_erase`: the others keep their order when one is taken out;
- `minKey?_of_toList_cons`: the least number is that of the first value.
-/

namespace CoinRelay.Ordered

/-! ## Single keys -/

section Keys

variable {α β : Type} [Ord α] [Std.TransOrd α] [Std.LawfulEqOrd α] [DecidableEq α] (m : Std.ExtTreeMap α β) (k a : α)

theorem getElem?_insert_eq (v : β) : (m.insert k v)[a]? = if k = a then some v else m[a]? := by
  simp only [Std.ExtTreeMap.getElem?_insert, Std.compare_eq_iff_eq]

theorem getElem?_erase_eq : (m.erase k)[a]? = if k = a then none else m[a]? := by
  simp only [Std.ExtTreeMap.getElem?_erase, Std.compare_eq_iff_eq]

theorem getElem?_modify_eq (f : β → β) : (m.modify k f)[a]? = if k = a then m[a]?.map f else m[a]? := by
  simp only [Std.ExtTreeMap.getElem?_modify, Std.compare_eq_iff_eq]
  split
  · next h => rw [h]
  · rfl

end Keys

/-! ## Lists of entries -/

variable {β : Type} (m : Std.ExtTreeMap Nat β)

theorem pairwise_toList : m.toList.Pairwise (fun p q => p.1 < q.1) :=
  m.ordered_keys_toList.imp fun h => Nat.compare_eq_lt.1 h

theorem nodup_of_pairwise {l : List (Nat × β)} (h : l.Pairwise (fun p q => p.1 < q.1)) : l.Nodup :=
  h.imp fun {p q} hpq (heq : p = q) => Nat.lt_irrefl p.1 (heq ▸ hpq)

/-- Lists in the order of their numbers with the same members are equal. -/
theorem eq_of_pairwise {l l' : List (Nat × β)} (h : l.Pairwise (fun p q => p.1 < q.1))
    (h' : l'.Pairwise (fun p q => p.1 < q.1)) (hmem : ∀ p, p ∈ l ↔ p ∈ l') : l = l' :=
  List.Perm.eq_of_pairwise (fun _ _ _ _ hpq hqp => absurd hpq (Nat.lt_asymm hqp)) h h'
    ((List.perm_ext_iff_of_nodup (nodup_of_pairwise h) (nodup_of_pairwise h')).2 hmem)

variable {m}

/-- A value under a number beyond all others comes last. -/
theorem toList_insert_of_lt {n : Nat} (h : ∀ k v, m[k]? = some v → k < n) (v : β) :
    (m.insert n v).toList = m.toList ++ [(n, v)] := by
  have hlt : ∀ p ∈ m.toList, p.1 < n := fun p hp => h p.1 p.2 (Std.ExtTreeMap.mem_toList_iff_getElem?_eq_some.1 hp)
  refine eq_of_pairwise (pairwise_toList _) ?_ fun p => ?_
  · refine List.pairwise_append.2 ⟨pairwise_toList m, List.pairwise_singleton _ _, ?_⟩
    intro p hp q hq
    cases List.mem_singleton.1 hq
    exact hlt p hp
  · obtain ⟨k, w⟩ := p
    simp only [List.mem_append, List.mem_singleton, Std.ExtTreeMap.mem_toList_iff_getElem?_eq_some,
      getElem?_insert_eq, Prod.mk.injEq]
    by_cases hk : n = k
    · subst hk
      have hnone : m[n]? ≠ some w := fun hs => Nat.lt_irrefl _ (h n w hs)
      simp [hnone, eq_comm]
    · simp [hk, Ne.symm hk]

/-- The others keep their order when one is taken out. -/
theorem toList_erase (n : Nat) : (m.erase n).toList = m.toList.filter (fun p => p.1 ≠ n) := by
  apply eq_of_pairwise (pairwise_toList _) ((pairwise_toList m).filter _)
  rintro ⟨k, w⟩
  simp only [List.mem_filter, Std.ExtTreeMap.mem_toList_iff_getElem?_eq_some, getElem?_erase_eq]
  by_cases hk : n = k
  · simp [hk]
  · simp [hk, Ne.symm hk]

/-- The least number is that of the first value. -/
theorem minKey?_of_toList_cons {n : Nat} {v : β} {rest : List (Nat × β)} (h : m.toList = (n, v) :: rest) :
    m.minKey? = some n := by
  have hpair := pairwise_toList m
  rw [h, List.pairwise_cons] at hpair
  have hmem (p : Nat × β) : m[p.1]? = some p.2 ↔ p ∈ (n, v) :: rest := by
    rw [← h, Std.ExtTreeMap.mem_toList_iff_getElem?_eq_some]
  refine Std.ExtTreeMap.minKey?_eq_some_iff_mem_and_forall.2 ⟨?_, fun k hk => ?_⟩
  · rw [Std.ExtTreeMap.mem_iff_isSome_getElem?, (hmem (n, v)).2 List.mem_cons_self]
    rfl
  · rw [Std.ExtTreeMap.mem_iff_isSome_getElem?] at hk
    obtain ⟨w, hw⟩ := Option.isSome_iff_exists.1 hk
    rw [Nat.isLE_compare]
    rcases List.mem_cons.1 ((hmem (k, w)).1 hw) with heq | hrest
    · cases heq
      exact Nat.le_refl _
    · exact Nat.le_of_lt (hpair.1 (k, w) hrest)

end CoinRelay.Ordered
