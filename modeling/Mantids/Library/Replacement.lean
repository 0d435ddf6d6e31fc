import Mathlib

/-! Occurrences of a pattern in a text replaced, all of them or the first, and where an occurrence cannot lie. -/

set_option autoImplicit false

namespace Library

section
variable {α : Type} [DecidableEq α] (pattern replacement : List α)

/-- From the left; `skip` elements are still of the occurrence before. -/
def replaceFrom : (skip : Nat) → List α → List α
  | _, [] => []
  | skip + 1, _ :: rest => replaceFrom skip rest
  | 0, first :: rest =>
    if pattern <+: first :: rest then replacement ++ replaceFrom (pattern.length - 1) rest
    else first :: replaceFrom 0 rest

def replaceAll (text : List α) : List α := replaceFrom pattern replacement 0 text

def replaceFirst : List α → List α
  | [] => []
  | first :: rest =>
    if pattern <+: first :: rest then replacement ++ (first :: rest).drop pattern.length
    else first :: replaceFirst rest

variable {pattern replacement}

theorem replaceFrom_eq (skip : Nat) (text : List α) :
    replaceFrom pattern replacement skip text = replaceAll pattern replacement (text.drop skip) := by
  induction skip generalizing text with
  | zero => rfl
  | succ skip ih =>
    cases text with
    | nil => rfl
    | cons first rest => exact ih rest

theorem replaceAll_occurrence (some : pattern ≠ []) (rest : List α) :
    replaceAll pattern replacement (pattern ++ rest) = replacement ++ replaceAll pattern replacement rest := by
  cases pattern with
  | nil => exact absurd rfl some
  | cons first tail =>
    have here : first :: tail <+: first :: (tail ++ rest) := List.prefix_append _ _
    rw [List.cons_append, replaceAll, replaceFrom, if_pos here, replaceFrom_eq, List.length_cons,
      Nat.add_sub_cancel, List.drop_left]

theorem replaceAll_other {first : α} {rest : List α} (other : ¬pattern <+: first :: rest) :
    replaceAll pattern replacement (first :: rest) = first :: replaceAll pattern replacement rest := by
  rw [replaceAll, replaceFrom, if_neg other]
  rfl

/-- What does not hold the first element of the pattern is passed. -/
theorem replaceAll_pass {first : α} {tail front : List α} (absent : first ∉ front) (rest : List α) :
    replaceAll (first :: tail) replacement (front ++ rest) =
      front ++ replaceAll (first :: tail) replacement rest := by
  induction front with
  | nil => rfl
  | cons head front ih =>
    rw [List.mem_cons, not_or] at absent
    have other : ¬first :: tail <+: head :: (front ++ rest) := by
      intro here
      exact absent.1 (List.cons_prefix_cons.mp here).1
    rw [List.cons_append, replaceAll_other other, ih absent.2, List.cons_append]

theorem replaceAll_absent {first : α} {tail text : List α} (absent : first ∉ text) :
    replaceAll (first :: tail) replacement text = text := by
  calc replaceAll (first :: tail) replacement text
    _ = replaceAll (first :: tail) replacement (text ++ []) := by rw [List.append_nil]
    _ = text ++ [] := replaceAll_pass absent []
    _ = text := List.append_nil text

theorem replaceAll_of_not_infix {text : List α} (absent : ¬pattern <:+: text) :
    replaceAll pattern replacement text = text := by
  induction text with
  | nil => rfl
  | cons first rest ih =>
    rw [List.infix_cons_iff, not_or] at absent
    rw [replaceAll_other absent.1, ih absent.2]

/-! ## What is left of an element -/

theorem count_replaceFrom_le {element : α} (absent : element ∉ replacement) (skip : Nat) (text : List α) :
    (replaceFrom pattern replacement skip text).count element ≤ text.count element := by
  induction text generalizing skip with
  | nil => simp only [replaceFrom, List.count_nil, Nat.le_refl]
  | cons first rest ih =>
    cases skip with
    | succ skip => exact (ih skip).trans (List.count_le_count_cons)
    | zero =>
      rw [replaceFrom]
      split
      case isTrue =>
        rw [List.count_append, List.count_eq_zero.mpr absent, Nat.zero_add]
        exact (ih _).trans List.count_le_count_cons
      case isFalse =>
        rw [List.count_cons, List.count_cons]
        exact Nat.add_le_add_right (ih 0) _

theorem count_replaceAll_le {element : α} (absent : element ∉ replacement) (text : List α) :
    (replaceAll pattern replacement text).count element ≤ text.count element :=
  count_replaceFrom_le absent 0 text

/-- One occurrence goes, and the replacement comes. -/
theorem count_replaceFirst {text : List α} (occurs : pattern <:+: text) (some : pattern ≠ []) (element : α) :
    (replaceFirst pattern replacement text).count element + pattern.count element =
      text.count element + replacement.count element := by
  induction text with
  | nil => exact absurd (List.eq_nil_of_infix_nil occurs) some
  | cons first rest ih =>
    rw [replaceFirst]
    split
    case isTrue here =>
      have whole := List.prefix_iff_eq_append.mp here
      have parts := congrArg (List.count element) whole
      rw [List.count_append] at parts
      rw [List.count_append]
      omega
    case isFalse other =>
      have later : pattern <:+: rest := (List.infix_cons_iff.mp occurs).resolve_left other
      have counted := ih later
      rw [List.count_cons, List.count_cons]
      omega

end

section
variable {α : Type}

/-- An occurrence begins where its first element is. -/
theorem infix_behind {first : α} {tail front back : List α} (absent : first ∉ front)
    (found : first :: tail <:+: front ++ back) : first :: tail <:+: back := by
  induction front with
  | nil => exact found
  | cons head front ih =>
    rw [List.mem_cons, not_or] at absent
    rcases List.infix_cons_iff.mp found with here | later
    · exact absurd (List.cons_prefix_cons.mp here).1 absent.1
    · exact ih absent.2 later

end

end Library
