import Mathlib

/-! Resources that are opened and released: the uses of a program run, and which of them pair up. -/

set_option autoImplicit false

namespace Library

inductive Use (R : Type) where
  | opens (resource : R)
  | releases (resource : R)
  deriving DecidableEq

section
variable {R : Type}

/-- Every opening has its own release behind it. -/
inductive Paired : List (Use R) → Prop where
  | nil : Paired []
  | around {resource : R} {inner rest : List (Use R)} : Paired inner → Paired rest →
      Paired (.opens resource :: (inner ++ .releases resource :: rest))

theorem Paired.append {first second : List (Use R)} (paired : Paired first) (next : Paired second) :
    Paired (first ++ second) := by
  induction paired with
  | nil => exact next
  | @around resource inner rest within _ _ ih =>
    rw [List.cons_append, List.append_assoc]
    exact .around within ih

theorem paired_single (resource : R) : Paired [.opens resource, .releases resource] := .around .nil .nil

theorem paired_flatMap {α : Type} (uses : α → List (Use R)) (items : List α) (paired : ∀ item, Paired (uses item)) :
    Paired (items.flatMap uses) := by
  induction items with
  | nil => exact .nil
  | cons item rest ih =>
    rw [List.flatMap_cons]
    exact (paired item).append ih

variable [DecidableEq R]

theorem Paired.count {uses : List (Use R)} (paired : Paired uses) (resource : R) :
    uses.count (.opens resource) = uses.count (.releases resource) := by
  induction paired with
  | nil => rfl
  | @around other inner rest _ _ within behind =>
    rw [List.count_cons, List.count_append, List.count_cons, List.count_cons, List.count_append, List.count_cons, within,
      behind]
    by_cases same : other = resource
    · subst same
      simp
      omega
    · simp [same]

/-- One opening without a release stays so, whatever pairs up around it. -/
theorem not_paired_of_left {before behind : List (Use R)} (first : Paired before) (last : Paired behind) (resource : R) :
    ¬Paired (before ++ .opens resource :: behind) := by
  intro paired
  have counts := paired.count resource
  rw [List.count_append, List.count_append, List.count_cons, List.count_cons, first.count, last.count] at counts
  simp at counts

end

end Library
