import Mathlib

/-! Lists and their groups: the sublists of one key, in the order of the list. -/

set_option autoImplicit false

namespace Library

section
variable {α K : Type} [DecidableEq K] (key : α → K) {l l' : List α}

/-- The groups tell what is in a list, and how often. -/
theorem perm_of_groups [DecidableEq α]
    (groups : ∀ k, (l.filter fun a => decide (key a = k)) = l'.filter fun a => decide (key a = k)) : l.Perm l' := by
  apply List.perm_iff_count.mpr
  intro a
  have here : decide (key a = key a) = true := decide_eq_true rfl
  have first := @List.count_filter α _ _ (fun b => decide (key b = key a)) a l here
  have second := @List.count_filter α _ _ (fun b => decide (key b = key a)) a l' here
  rw [← first, ← second, groups]

/-- The groups and the order of the keys tell a list. -/
theorem eq_of_groups (keys : l.map key = l'.map key)
    (groups : ∀ k, (l.filter fun a => decide (key a = k)) = l'.filter fun a => decide (key a = k)) : l = l' := by
  induction l generalizing l' with
  | nil =>
    have empty := List.map_eq_nil_iff.mp keys.symm
    exact empty.symm
  | cons a rest ih =>
    cases l' with
    | nil => cases keys
    | cons a' rest' =>
      rw [List.map_cons, List.map_cons, List.cons.injEq] at keys
      have first := groups (key a)
      rw [List.filter_cons_of_pos (by simp), List.filter_cons_of_pos (by simp [keys.1]), List.cons.injEq] at first
      rw [first.1, ih keys.2]
      intro k
      by_cases same : key a = k
      · rw [← same]
        exact first.2
      · have group := groups k
        rwa [List.filter_cons_of_neg (by simp [same]), List.filter_cons_of_neg (by simp [← keys.1, same])] at group

end

end Library
