/-!
# Merges

What several lists can be merged to, with nothing lost and the order of each list kept: frames of
several producers on one wire, or lines of which some are whole and some are torn.
-/

namespace MessageFraming

/-- `merged` takes the elements of all `lists` one after another, from the front of any of them. -/
inductive Merge {α : Type} : List (List α) → List α → Prop where
  | done {lists : List (List α)} : (∀ list ∈ lists, list = []) → Merge lists []
  | next {lists : List (List α)} {i : Nat} {x : α} {rest merged : List α} :
      lists[i]? = some (x :: rest) → Merge (lists.set i rest) merged → Merge lists (x :: merged)

namespace Merge

variable {α : Type} {lists : List (List α)} {merged : List α}

/-- The head of one of the lists may be taken out of all of them. -/
theorem flatten_perm_of_getElem? {i : Nat} {x : α} {rest : List α}
    (h : lists[i]? = some (x :: rest)) : lists.flatten.Perm (x :: (lists.set i rest).flatten) := by
  induction lists generalizing i with
  | nil => cases h
  | cons list lists ih =>
    cases i with
    | zero =>
      cases h
      exact List.Perm.refl _
    | succ i =>
      -- `x` is behind `list`, and can be moved in front of it
      rw [List.set_cons_succ, List.flatten_cons, List.flatten_cons]
      exact ((ih h).append_left list).trans List.perm_middle

/-- Every element is there just as often as it was. -/
theorem perm (h : Merge lists merged) : merged.Perm lists.flatten := by
  induction h with
  | done hall => rw [List.flatten_eq_nil_iff.mpr hall]
  | next hi _ ih => exact (ih.cons _).trans (flatten_perm_of_getElem? hi).symm

/-- The elements of each list are in their order. -/
theorem sublist (h : Merge lists merged) {list : List α} (hmem : list ∈ lists) :
    list.Sublist merged := by
  obtain ⟨j, hj⟩ := List.mem_iff_getElem?.mp hmem
  clear hmem
  induction h generalizing j list with
  | done hall =>
    have hnil := hall list (List.mem_of_getElem? hj)
    subst hnil
    exact List.nil_sublist []
  | @next lists i x rest merged hi _ ih =>
    -- the element comes from this list or from another one
    by_cases hij : i = j
    · subst hij
      rw [hi] at hj
      cases hj
      have hlt := (List.getElem?_eq_some_iff.mp hi).1
      exact (ih i (List.getElem?_set_self hlt)).cons_cons x
    · exact (ih j ((List.getElem?_set_ne hij).trans hj)).cons x

end Merge

end MessageFraming
