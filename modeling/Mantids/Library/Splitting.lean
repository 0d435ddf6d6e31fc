import Mathlib

/-! A list split at the first of an element. -/

set_option autoImplicit false

namespace Library

section
variable {α : Type} [DecidableEq α] {a : α} {front : List α} (absent : a ∉ front)
include absent

theorem all_ne : ∀ b ∈ front, decide (b ≠ a) = true := by
  intro b member
  exact decide_eq_true (ne_of_mem_of_not_mem member absent)

theorem takeWhile_ne (rest : List α) : (front ++ a :: rest).takeWhile (· ≠ a) = front := by
  rw [List.takeWhile_append_of_pos (all_ne absent), List.takeWhile_cons_of_neg (by simp), List.append_nil]

theorem dropWhile_ne_append (rest : List α) : (front ++ rest).dropWhile (· ≠ a) = rest.dropWhile (· ≠ a) :=
  List.dropWhile_append_of_pos (all_ne absent)

theorem dropWhile_ne (rest : List α) : (front ++ a :: rest).dropWhile (· ≠ a) = a :: rest := by
  rw [dropWhile_ne_append absent, List.dropWhile_cons_of_neg (by simp)]

omit absent in
theorem split_at_first (a : α) (l : List α) :
    a ∉ l.takeWhile (· ≠ a) ∧ l = l.takeWhile (· ≠ a) ++ l.dropWhile (· ≠ a) := by
  refine ⟨fun member => ?_, List.takeWhile_append_dropWhile.symm⟩
  have other := List.mem_takeWhile_imp member
  simp at other

omit [DecidableEq α] absent in
/-- A prefix without an element ends before the first of it. -/
theorem prefix_of_notMem {pattern rest : List α} (without : a ∉ pattern) (here : pattern <+: front ++ a :: rest) :
    pattern <+: front := by
  obtain ⟨more, whole⟩ := here
  rcases List.append_eq_append_iff.mp whole with ⟨tail, same, -⟩ | ⟨tail, same, later⟩
  · exact ⟨tail, same.symm⟩
  · cases tail with
    | nil =>
      rw [List.append_nil] at same
      exact same ▸ List.prefix_rfl
    | cons first tail =>
      obtain ⟨rfl, -⟩ := List.cons.inj later
      rw [same] at without
      exact absurd (List.mem_append_right _ List.mem_cons_self) without

end

end Library
