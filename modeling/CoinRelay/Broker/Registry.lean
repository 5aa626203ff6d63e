import Std.Data.ExtTreeMap

/-!
# Registries

A list of items for each user. `Registry.put` and `Registry.retain` forget a user who is left without items, but
`Registry.enter` keeps one who has none.

- `Registry.of`: the items of a user;
- `Registry.enter`, `Registry.push`, `Registry.put`, `Registry.retain`: what changes them;
- `Registry.of_enter`, `Registry.of_push`, `Registry.of_put`, `Registry.of_retain`, `Registry.of_empty`: each operation
  seen through `of`.
-/

namespace CoinRelay

/-- The items of each user, in order. -/
structure Registry (α : Type) where
  lists : Std.ExtTreeMap String (List α) := ∅

namespace Registry

variable {α : Type}

/-- No items at all. -/
def empty : Registry α := {}

/-- The items of a user. -/
def of (r : Registry α) (user : String) : List α := r.lists.getD user []

/-- Keeps a user, with no items unless there are some. -/
def enter (r : Registry α) (user : String) : Registry α where
  lists := r.lists.insertIfNew user []

/-- Adds an item behind those of a user. -/
def push (r : Registry α) (user : String) (item : α) : Registry α where
  lists := r.lists.insert user (r.of user ++ [item])

/-- Replaces the items of a user, who is not kept without any. -/
def put (r : Registry α) (user : String) (items : List α) : Registry α :=
  if items.isEmpty then { lists := r.lists.erase user } else { lists := r.lists.insert user items }

/-- Keeps the items with a property. -/
def retain (p : α → Bool) (r : Registry α) : Registry α where
  lists := r.lists.filterMap fun _ items =>
    let kept := items.filter p
    if kept.isEmpty then none else some kept

/-- The number of users with items. -/
def users (r : Registry α) : Nat := r.lists.size

/-- The number of items of all users. -/
def size (r : Registry α) : Nat := (r.lists.toList.flatMap (·.2)).length

theorem of_empty (user : String) : (empty : Registry α).of user = [] := by
  simp [empty, of]

theorem compare_eq_iff {user other : String} : compare user other = .eq ↔ other = user := by
  rw [Std.compare_eq_iff_eq]
  exact eq_comm

theorem of_enter (r : Registry α) (user other : String) : (r.enter user).of other = r.of other := by
  unfold enter of
  rw [Std.ExtTreeMap.getD_insertIfNew]
  split
  · next h =>
    obtain ⟨hsame, hnew⟩ := h
    rw [compare_eq_iff] at hsame
    subst hsame
    exact (Std.ExtTreeMap.getD_eq_fallback hnew).symm
  · rfl

theorem of_push (r : Registry α) (user other : String) (item : α) :
    (r.push user item).of other = if other = user then r.of user ++ [item] else r.of other := by
  unfold push of
  simp only [Std.ExtTreeMap.getD_insert, compare_eq_iff]

theorem of_put (r : Registry α) (user other : String) (items : List α) :
    (r.put user items).of other = if other = user then items else r.of other := by
  unfold put of
  split
  · next h =>
    rw [List.isEmpty_iff] at h
    subst h
    simp only [Std.ExtTreeMap.getD_erase, compare_eq_iff]
  · simp only [Std.ExtTreeMap.getD_insert, compare_eq_iff]

theorem of_retain (p : α → Bool) (r : Registry α) (user : String) : (r.retain p).of user = (r.of user).filter p := by
  simp only [retain, of, Std.ExtTreeMap.getD_eq_getD_getElem?, Std.ExtTreeMap.getElem?_filterMap']
  cases r.lists[user]? with
  | none => rfl
  | some items =>
    simp only [Option.bind_some, Option.getD_some]
    split
    · next h => exact (List.isEmpty_iff.1 h).symm
    · rfl

end Registry

end CoinRelay
