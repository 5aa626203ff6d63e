import CoinRelay.Broker.Registry
import Mathlib.Algebra.BigOperators.Group.Finset.Basic
import Mathlib.Algebra.BigOperators.Group.List.Basic

/-!
# Registries as a whole

What is known of each user's list through `Registry.of` tells the whole registry.

- `Registry.size_eq_sum`: its size is the sum of the lengths of the lists, over any users that include all those with
  items;
- `Registry.enter_of_ne`, `Registry.push_enter`: entering a user who has items, or who gets one next, changes nothing;
- `Registry.Filed`: no user is kept without items, as no operation leaves one so; two such registries with the same
  lists are the same (`Registry.Filed.ext`), and both totals count the users with items (`Registry.Filed.totals`).
-/

namespace CoinRelay.Registry

variable {α : Type}

/-- The items kept with a user are the user's items. -/
theorem of_of_mem_toList {r : Registry α} {entry : String × List α} (h : entry ∈ r.lists.toList) :
    r.of entry.1 = entry.2 := by
  have hget : r.lists[entry.1]? = some entry.2 := Std.ExtTreeMap.mem_toList_iff_getElem?_eq_some.1 h
  rw [of, Std.ExtTreeMap.getD_eq_getD_getElem?, hget, Option.getD_some]

/-- A user with items is among the users that are kept. -/
theorem mem_users_of_ne {r : Registry α} {user : String} (h : r.of user ≠ []) :
    user ∈ r.lists.toList.map (·.1) := by
  rw [of, Std.ExtTreeMap.getD_eq_getD_getElem?] at h
  cases hget : r.lists[user]? with
  | none =>
    rw [hget] at h
    exact absurd rfl h
  | some items =>
    exact List.mem_map.2 ⟨(user, items), Std.ExtTreeMap.mem_toList_iff_getElem?_eq_some.2 hget, rfl⟩

theorem nodup_users (r : Registry α) : (r.lists.toList.map (·.1)).Nodup := by
  refine List.pairwise_map.2 (Std.ExtTreeMap.distinct_keys_toList.imp fun {a b} h => ?_)
  intro hab
  exact h (Std.compare_eq_iff_eq.2 hab)

/-- **The size of a registry** is the sum of the lengths of its lists. -/
theorem size_eq_sum (r : Registry α) {users : Finset String} (h : ∀ u, r.of u ≠ [] → u ∈ users) :
    r.size = ∑ u ∈ users, (r.of u).length := by
  let kept := r.lists.toList.map (·.1)
  have hlength : r.size = (kept.map fun u => (r.of u).length).sum := by
    rw [size, List.length_flatMap, List.map_map]
    congr 1
    refine List.map_congr_left fun entry hentry => ?_
    rw [Function.comp_apply, of_of_mem_toList hentry]
  rw [hlength, ← List.sum_toFinset _ r.nodup_users]
  -- the users kept and the users asked for differ only in users without items
  refine Finset.sum_congr_of_eq_on_inter ?_ ?_ fun _ _ _ => rfl
  · intro u _ hu
    by_contra hne
    exact hu (h u fun hnil => hne (List.length_eq_zero_iff.2 hnil))
  · intro u _ hu
    by_contra hne
    exact hu (List.mem_toFinset.2 (mem_users_of_ne fun hnil => hne (List.length_eq_zero_iff.2 hnil)))

/-! ## Items that are kept -/

/-- The users with items. -/
theorem exists_users (r : Registry α) : ∃ users : Finset String, ∀ user, user ∈ users ↔ r.of user ≠ [] := by
  refine ⟨(r.lists.toList.map (·.1)).toFinset.filter fun user => (r.of user).isEmpty = false, fun user => ?_⟩
  rw [Finset.mem_filter, List.mem_toFinset, Bool.eq_false_iff, ne_eq, List.isEmpty_iff]
  exact ⟨fun h => h.2, fun h => ⟨mem_users_of_ne h, h⟩⟩

/-- **The items left out** are missing from the size. -/
theorem size_retain (p : α → Bool) (r : Registry α) {users : Finset String} (h : ∀ u, r.of u ≠ [] → u ∈ users) :
    r.size = (r.retain p).size + ∑ u ∈ users, (r.of u).countP (!p ·) := by
  have hkept : ∀ u, (r.retain p).of u ≠ [] → u ∈ users := by
    intro u hu
    apply h
    intro hnil
    rw [of_retain, hnil] at hu
    exact hu rfl
  rw [r.size_eq_sum h, (r.retain p).size_eq_sum hkept, ← Finset.sum_add_distrib]
  refine Finset.sum_congr rfl fun u _ => ?_
  rw [of_retain, ← List.countP_eq_length_filter, List.length_eq_countP_add_countP p]
  congr 1
  exact List.countP_congr fun a _ => by simp

/-! ## Users without items -/

/-- A user with items is kept already. -/
theorem enter_of_ne {r : Registry α} {user : String} (h : r.of user ≠ []) : r.enter user = r := by
  have hkept : user ∈ r.lists := by
    by_contra hnew
    exact h (Std.ExtTreeMap.getD_eq_fallback hnew)
  have hlists : r.lists.insertIfNew user [] = r.lists := by
    apply Std.ExtTreeMap.ext_getElem?
    intro other
    rw [Std.ExtTreeMap.getElem?_insertIfNew, if_neg]
    rintro ⟨hsame, hnew⟩
    exact hnew hkept
  rw [enter, hlists]

/-- A user who gets an item next need not be entered before. -/
theorem push_enter (r : Registry α) (user : String) (item : α) : (r.enter user).push user item = r.push user item := by
  have hlists : (r.lists.insertIfNew user []).insert user (r.of user ++ [item]) =
      r.lists.insert user (r.of user ++ [item]) := by
    apply Std.ExtTreeMap.ext_getElem?
    intro other
    rw [Std.ExtTreeMap.getElem?_insert, Std.ExtTreeMap.getElem?_insert]
    split
    · rfl
    · next hne => rw [Std.ExtTreeMap.getElem?_insertIfNew, if_neg (fun h => hne h.1)]
  rw [push, of_enter, enter, hlists]
  rfl

/-- No user is kept without items. -/
def Filed (r : Registry α) : Prop := ∀ user : String, r.lists[user]? ≠ some []

namespace Filed

variable {r s : Registry α}

theorem empty : (Registry.empty : Registry α).Filed := by
  intro user h
  simp [Registry.empty] at h

theorem put (h : r.Filed) (user : String) (items : List α) : (r.put user items).Filed := by
  intro other hother
  unfold Registry.put at hother
  split at hother
  · rw [Std.ExtTreeMap.getElem?_erase] at hother
    split at hother
    · cases hother
    · exact h other hother
  · next hitems =>
    rw [Std.ExtTreeMap.getElem?_insert] at hother
    split at hother
    · cases hother
      exact hitems rfl
    · exact h other hother

/-- A user who gets an item is not left without any. -/
theorem push (h : r.Filed) (user : String) (item : α) : (r.push user item).Filed := by
  intro other hother
  rw [Registry.push, Std.ExtTreeMap.getElem?_insert] at hother
  split at hother
  · exact List.append_ne_nil_of_right_ne_nil _ (List.cons_ne_nil item []) (Option.some.inj hother)
  · exact h other hother

theorem retain (p : α → Bool) (r : Registry α) : (r.retain p).Filed := by
  intro user hnone
  rw [Registry.retain, Std.ExtTreeMap.getElem?_filterMap'] at hnone
  obtain ⟨items, -, hkept⟩ := Option.bind_eq_some_iff.1 hnone
  simp only at hkept
  split at hkept
  · cases hkept
  · next hne =>
    rw [Option.some.inj hkept] at hne
    exact hne rfl

/-- **The totals** count the users with items, and the items of those. -/
theorem totals (h : r.Filed) : ∃ users : Finset String, (∀ user, user ∈ users ↔ r.of user ≠ []) ∧
    r.users = users.card ∧ r.size = ∑ user ∈ users, (r.of user).length := by
  have hmem : ∀ user, user ∈ (r.lists.toList.map (·.1)).toFinset ↔ r.of user ≠ [] := by
    intro user
    rw [List.mem_toFinset]
    constructor
    · intro hkept hnil
      obtain ⟨entry, hentry, rfl⟩ := List.mem_map.1 hkept
      have hget := Std.ExtTreeMap.mem_toList_iff_getElem?_eq_some.1 hentry
      rw [of_of_mem_toList hentry] at hnil
      rw [hnil] at hget
      exact h _ hget
    · exact mem_users_of_ne
  refine ⟨_, hmem, ?_, r.size_eq_sum fun user => (hmem user).2⟩
  rw [List.toFinset_card_of_nodup r.nodup_users, List.length_map, Std.ExtTreeMap.length_toList]
  rfl

/-- **Registries with the same lists** are the same. -/
theorem ext (hr : r.Filed) (hs : s.Filed) (h : ∀ user, r.of user = s.of user) : r = s := by
  have hlists : r.lists = s.lists := by
    apply Std.ExtTreeMap.ext_getElem?
    intro user
    have hof := h user
    have hr := hr user
    have hs := hs user
    simp only [of, Std.ExtTreeMap.getD_eq_getD_getElem?] at hof
    revert hof hr hs
    cases r.lists[user]? <;> cases s.lists[user]? <;> simp
  cases r
  cases s
  exact congrArg Registry.mk hlists

end Filed

/-- **Keeping twice** is keeping once what has both properties. -/
theorem retain_retain (p q : α → Bool) (r : Registry α) : (r.retain p).retain q = r.retain fun a => p a && q a := by
  refine (Filed.retain q _).ext (Filed.retain _ r) fun user => ?_
  rw [of_retain, of_retain, of_retain, List.filter_filter]
  exact List.filter_congr fun a _ => Bool.and_comm (q a) (p a)

end CoinRelay.Registry
