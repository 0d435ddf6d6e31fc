import Mathlib

/-! Runs of a deterministic state machine: the states a run passes through, and
the rules that carry an invariant along it. -/

set_option autoImplicit false

namespace Library

/-- What the steps of a history last said, of the steps that say something. -/
def latest {A B : Type} (f : A → Option B) (history : List A) : Option B := (history.filterMap f).getLast?

section
variable {S A : Type} (step : S → A → S)

/-- Every state of the run, the first and the last included. -/
def visited : S → List A → List S
  | s, [] => [s]
  | s, a :: rest => s :: visited (step s a) rest

/-- The state in which the run ends. -/
def reached : S → List A → S
  | s, [] => s
  | s, a :: rest => reached (step s a) rest

/-- Each step is taken from a state that allows it. -/
def Along (allowed : S → A → Prop) : S → List A → Prop
  | _, [] => True
  | s, a :: rest => allowed s a ∧ Along allowed (step s a) rest

instance Along.decidable (allowed : S → A → Prop) [∀ s a, Decidable (allowed s a)] :
    (s : S) → (run : List A) → Decidable (Along step allowed s run)
  | _, [] => isTrue trivial
  | s, a :: rest =>
    have := Along.decidable allowed (step s a) rest
    inferInstanceAs (Decidable (allowed s a ∧ Along step allowed (step s a) rest))

theorem reached_visited (s : S) (run : List A) : reached step s run ∈ visited step s run := by
  induction run generalizing s with
  | nil => exact List.mem_singleton.mpr rfl
  | cons a rest ih => exact List.mem_cons_of_mem s (ih (step s a))

theorem reached_append (s : S) (run rest : List A) :
    reached step s (run ++ rest) = reached step (reached step s run) rest := by
  induction run generalizing s with
  | nil => rfl
  | cons a run ih => exact ih (step s a)

variable {step} {allowed : S → A → Prop}

/-- Steps that every state allows. -/
theorem along_of_forall (run : List A) (free : ∀ a ∈ run, ∀ s, allowed s a) (s : S) : Along step allowed s run := by
  induction run generalizing s with
  | nil => trivial
  | cons a rest ih =>
    exact ⟨free a List.mem_cons_self s, ih (fun b member => free b (List.mem_cons_of_mem a member)) (step s a)⟩

theorem Along.and {also : S → A → Prop} {s : S} {run : List A} (one : Along step allowed s run)
    (two : Along step also s run) : Along step (fun s a => allowed s a ∧ also s a) s run := by
  induction run generalizing s with
  | nil => trivial
  | cons a rest ih => exact ⟨⟨one.1, two.1⟩, ih one.2 two.2⟩

/-- Allowed steps from states with an invariant keep it and are good. -/
theorem along_good (inv : S → Prop) {good : S → A → Prop}
    (carried : ∀ s a, inv s → allowed s a → inv (step s a) ∧ good s a) {s : S} {run : List A} (start : inv s)
    (along : Along step allowed s run) : Along step good s run := by
  induction run generalizing s with
  | nil => trivial
  | cons a rest ih =>
    have done := carried s a start along.1
    exact ⟨done.2, ih done.1 along.2⟩

theorem invariant_reached (inv : S → Prop) (preserved : ∀ s a, inv s → inv (step s a)) (s : S) (run : List A)
    (start : inv s) : inv (reached step s run) := by
  induction run generalizing s with
  | nil => exact start
  | cons a rest ih => exact ih (step s a) (preserved s a start)

omit step in
theorem latest_append {B : Type} (f : A → Option B) (past : List A) (a : A) :
    latest f (past ++ [a]) = (f a).or (latest f past) := by
  unfold latest
  rw [List.filterMap_append, List.filterMap_cons, List.filterMap_nil]
  cases f a <;> simp

/-- What holds of a state and the steps that led to it holds at the end of a run
with the run's own steps behind them. -/
theorem history_reached (inv : List A → S → Prop)
    (preserved : ∀ past s a, inv past s → inv (past ++ [a]) (step s a)) (past : List A) (s : S) (run : List A)
    (start : inv past s) : inv (past ++ run) (reached step s run) := by
  induction run generalizing past s with
  | nil =>
    rw [List.append_nil]
    exact start
  | cons a rest ih =>
    have next := ih (past ++ [a]) (step s a) (preserved past s a start)
    rwa [List.append_assoc] at next

/-- An invariant of the allowed steps holds in every state of a run of them. -/
theorem along_visited (inv : S → Prop) (preserved : ∀ s a, inv s → allowed s a → inv (step s a)) (s : S)
    (run : List A) (start : inv s) (along : Along step allowed s run) : ∀ t ∈ visited step s run, inv t := by
  induction run generalizing s with
  | nil =>
    intro t member
    rwa [List.mem_singleton.mp member]
  | cons a rest ih =>
    intro t member
    rcases List.mem_cons.mp member with rfl | later
    · exact start
    · exact ih (step s a) (preserved s a start along.1) along.2 t later

/-- When, under an invariant, a step is good exactly when it is allowed, and good
steps carry the invariant on, a run is good exactly when all its steps are allowed. -/
theorem along_iff (inv : S → Prop) {good : S → A → Prop} (exact : ∀ s a, inv s → (good s a ↔ allowed s a))
    (carried : ∀ s a, inv s → good s a → inv (step s a)) (s : S) (run : List A) (start : inv s) :
    Along step good s run ↔ Along step allowed s run := by
  induction run generalizing s with
  | nil => exact Iff.rfl
  | cons a rest ih =>
    constructor
    · rintro ⟨first, later⟩
      exact ⟨(exact s a start).mp first, (ih _ (carried s a start first)).mp later⟩
    · rintro ⟨first, later⟩
      have done := (exact s a start).mpr first
      exact ⟨done, (ih _ (carried s a start done)).mpr later⟩

theorem visited_iff_along {good : S → Prop} (s : S) (run : List A) :
    (∀ t ∈ visited step s run, good t) ↔ good s ∧ Along step (fun s a => good (step s a)) s run := by
  induction run generalizing s with
  | nil => simp [visited, Along]
  | cons a rest ih => simp [visited, Along, ih]

end

end Library
