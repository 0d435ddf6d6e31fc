import Mantids.Library.Runs

/-! A machine that may fail, followed against another that says what it should do: in every state of a run
they show the same, and every step answers the same. -/

set_option autoImplicit false

namespace Library

section
variable {S T A O V : Type} (step : S → A → Option (O × S)) (read : S → Option V) (ideal : T → A → O × T) (view : T → V)

def Follows : S → T → List A → Prop
  | c, t, [] => read c = some (view t)
  | c, t, a :: rest =>
    read c = some (view t) ∧ ∃ c', step c a = some ((ideal t a).1, c') ∧ Follows c' (ideal t a).2 rest

variable {step read ideal view}

theorem Follows.reads {c : S} {t : T} {run : List A} (follows : Follows step read ideal view c t run) :
    read c = some (view t) := by
  cases run with
  | nil => exact follows
  | cons a rest => exact follows.1

/-- What a run does not show at its first step it does not follow. -/
theorem not_follows_cons {c : S} {t : T} {a : A} {rest : List A}
    (leaves : ∀ c', step c a = some ((ideal t a).1, c') → read c' ≠ some (view (ideal t a).2)) :
    ¬Follows step read ideal view c t (a :: rest) := by
  rintro ⟨-, c', result, later⟩
  exact leaves c' result later.reads

/-- When related states show the same, and a step stays related if it is allowed and else shows the difference,
the runs that are followed are those of allowed steps. -/
theorem follows_iff_along (rel : S → T → Prop) (allowed : T → A → Prop)
    (reads : ∀ c t, rel c t → read c = some (view t))
    (stays : ∀ c t a, rel c t → allowed t a → ∃ c', step c a = some ((ideal t a).1, c') ∧ rel c' (ideal t a).2)
    (leaves : ∀ c t a, rel c t → ¬allowed t a →
      ∀ c', step c a = some ((ideal t a).1, c') → read c' ≠ some (view (ideal t a).2))
    {c : S} {t : T} (start : rel c t) (run : List A) :
    Follows step read ideal view c t run ↔ Along (fun t a => (ideal t a).2) allowed t run := by
  induction run generalizing c t with
  | nil => exact iff_of_true (reads c t start) trivial
  | cons a rest ih =>
    by_cases yes : allowed t a
    · obtain ⟨c', result, related⟩ := stays c t a start yes
      constructor
      · rintro ⟨-, c'', result', later⟩
        rw [result] at result'
        cases result'
        exact ⟨yes, (ih related).mp later⟩
      · rintro ⟨-, later⟩
        exact ⟨reads c t start, c', result, (ih related).mpr later⟩
    · exact iff_of_false (not_follows_cons (leaves c t a start yes)) fun along => yes along.1

end

end Library
