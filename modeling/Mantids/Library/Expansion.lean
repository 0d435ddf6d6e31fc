import Mathlib

/-! Members of a list expanded into the members of others, all equal ones at once, and relations without an endless
chain. -/

set_option autoImplicit false

namespace Library

section
variable {α : Type} {expanded : α → List α}

variable (expanded) in
/-- So many members are expanded, one after the other, until none is left. -/
inductive Weighs : List α → Nat → Prop where
  | nil : Weighs [] 0
  | cons {a later m n} (inside : Weighs (expanded a) m) (rest : Weighs later n) : Weighs (a :: later) (m + n + 1)

theorem Weighs.append {front behind : List α} {m n : Nat} (first : Weighs expanded front m)
    (last : Weighs expanded behind n) : Weighs expanded (front ++ behind) (m + n) := by
  induction first with
  | nil =>
    rw [Nat.zero_add]
    exact last
  | cons inside rest inner ih =>
    rename_i a later i j
    have whole := Weighs.cons inside ih
    rwa [show i + (j + n) + 1 = i + j + 1 + n by omega] at whole

end

section
variable {α : Type} {r : α → α → Prop}

open Relation

/-- Below what no chain leads down from for ever there is no circle. -/
theorem not_circle_of_acc {a b : α} (ends : Acc (fun below above => r above below) a) (reached : ReflTransGen r a b) :
    ¬TransGen r b b := by
  have below : Acc (fun below above => r above below) b := by
    induction reached with
    | refl => exact ends
    | tail _ step ih => exact ih.inv step
  have chains := below.transGen
  intro circle
  have turned : TransGen (fun below above => r above below) b b := transGen_swap.mpr circle
  -- the circle leads from every member of it to itself
  induction chains with
  | intro b _ ih => exact ih b turned reached below circle turned

/-- With finitely many to go to, circles are the only endless chains. -/
theorem acc_iff_of_finite {a : α} (finite : {b | ∃ a, r a b}.Finite) :
    Acc (fun below above => r above below) a ↔ ∀ b, ReflTransGen r a b → ¬TransGen r b b := by
  constructor
  · exact fun ends b reached => not_circle_of_acc ends reached
  · intro none
    induction size : {b | TransGen r a b}.ncard using Nat.strong_induction_on generalizing a with
    | h n ih =>
      constructor
      intro b step
      have fewer : {c | TransGen r b c} ⊂ {c | TransGen r a c} := by
        constructor
        · exact fun c later => .head step later
        · intro all
          exact none b (.single step) (all (.single step))
      have bounded : {c | TransGen r a c}.Finite := by
        apply finite.subset
        intro c reached
        obtain ⟨d, -, last⟩ := TransGen.tail'_iff.mp reached
        exact ⟨d, last⟩
      exact ih _ (size ▸ Set.ncard_lt_ncard fewer bounded) (fun c later => none c (.head step later)) rfl

end

end Library
