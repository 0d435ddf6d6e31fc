import Mathlib

/-! Programs that send statements to a store with one lock. A statement takes the lock and keeps it to the end of its
scope, and the lock cannot be taken twice. -/

set_option autoImplicit false

namespace Library.LockScopes

/-- For each statement that was sent, whether it has got the lock. -/
structure Session (D : Type) where
  store : D
  locked : Bool
  obtained : List Bool

def Session.start {D : Type} (store : D) : Session D := ⟨store, false, []⟩

/-- A program without a value waits for ever. -/
def Program (D α : Type) : Type := Session D → Option α × Session D

namespace Program
variable {D α β : Type}

protected def pure (value : α) : Program D α := fun session => (some value, session)

protected def bind (first : Program D α) (next : α → Program D β) : Program D β := fun session =>
  match first session with
  | (some value, session) => next value session
  | (none, session) => (none, session)

instance : Monad (Program D) where
  pure := Program.pure
  bind := Program.bind

/-- A statement and what is done within its scope, where nothing is known of a statement without the lock. With
`waits` there is no end to the waiting for the lock. -/
def scope (waits : Bool) (statement : D → β × D) (body : Option β → Program D α) : Program D α := fun session =>
  if session.locked then
    if waits then (none, { session with obtained := session.obtained ++ [false] })
    else body none { session with obtained := session.obtained ++ [false] }
  else
    match body (some (statement session.store).1)
      ⟨(statement session.store).2, true, session.obtained ++ [true]⟩ with
    | (some value, after) => (some value, { after with locked := false })
    | (none, after) => (none, after)

theorem scope_free (waits : Bool) (statement : D → β × D) (body : Option β → Program D α) (store : D)
    (obtained : List Bool) :
    scope waits statement body ⟨store, false, obtained⟩ =
      match body (some (statement store).1) ⟨(statement store).2, true, obtained ++ [true]⟩ with
      | (some value, after) => (some value, { after with locked := false })
      | (none, after) => (none, after) := rfl

theorem scope_locked (waits : Bool) (statement : D → β × D) (body : Option β → Program D α) (store : D)
    (obtained : List Bool) :
    scope waits statement body ⟨store, true, obtained⟩ =
      if waits then (none, ⟨store, true, obtained ++ [false]⟩)
      else body none ⟨store, true, obtained ++ [false]⟩ := rfl

/-! ## Programs that find the lock free -/

/-- From a session with the store, in which nobody holds the lock, the program ends with the value and the other store,
the lock is free again, and each of its statements has got it. -/
def Returns (program : Program D α) (store : D) (value : α) (after : D) : Prop :=
  ∀ obtained, ∃ more, program ⟨store, false, obtained⟩ = (some value, ⟨after, false, obtained ++ more⟩) ∧
    ∀ got ∈ more, got = true

theorem returns_pure (value : α) (store : D) : Returns (Pure.pure value : Program D α) store value store :=
  fun _ => ⟨[], by rw [List.append_nil]; rfl, List.forall_mem_nil _⟩

theorem Returns.bind {first : Program D α} {next : α → Program D β} {store middle after : D} {value : α} {result : β}
    (one : Returns first store value middle) (two : Returns (next value) middle result after) :
    Returns (first >>= next) store result after := by
  intro obtained
  obtain ⟨front, ran, got⟩ := one obtained
  obtain ⟨back, continued, also⟩ := two (obtained ++ front)
  refine ⟨front ++ back, ?_, ?_⟩
  · change Program.bind first next _ = _
    rw [Program.bind, ran]
    dsimp only
    rw [continued, List.append_assoc]
  · intro each member
    rcases List.mem_append.mp member with before | behind
    · exact got each before
    · exact also each behind

/-- Nothing else is sent within the scope. -/
theorem returns_scope (waits : Bool) (statement : D → β × D) (f : Option β → α) (store : D) :
    Returns (scope waits statement fun found => Pure.pure (f found)) store (f (some (statement store).1))
      (statement store).2 :=
  fun _ => ⟨[true], rfl, fun _ member => List.mem_singleton.mp member⟩

theorem Returns.start {program : Program D α} {store after : D} {value : α} (returns : Returns program store value after) :
    ∃ obtained, program (.start store) = (some value, ⟨after, false, obtained⟩) ∧ ∀ got ∈ obtained, got = true :=
  returns []

/-- It finds the lock free from every store. -/
def Free (program : Program D α) : Prop := ∀ store, ∃ value after, Returns program store value after

theorem free_pure (value : α) : Free (Pure.pure value : Program D α) :=
  fun store => ⟨value, store, returns_pure value store⟩

theorem free_bind {first : Program D α} {next : α → Program D β} (one : Free first) (two : ∀ value, Free (next value)) :
    Free (first >>= next) := by
  intro store
  obtain ⟨value, middle, begins⟩ := one store
  obtain ⟨result, after, ends⟩ := two value middle
  exact ⟨result, after, begins.bind ends⟩

theorem free_scope (waits : Bool) (statement : D → β × D) (f : Option β → α) :
    Free (scope waits statement fun found => Pure.pure (f found)) :=
  fun store => ⟨_, _, returns_scope waits statement f store⟩

/-! ## Programs that keep a property of the store -/

variable {P : D → Prop}

/-- No statement is sent within the scope of another one, and each changes the store in an allowed way. -/
inductive Sequential (waits : Bool) (allowed : (D → D) → Prop) : {α : Type} → Program D α → Prop where
  | pure {α : Type} (value : α) : Sequential waits allowed (Pure.pure value : Program D α)
  | bind {α β : Type} {first : Program D α} {next : α → Program D β} : Sequential waits allowed first →
      (∀ value, Sequential waits allowed (next value)) → Sequential waits allowed (first >>= next)
  | scope {α β : Type} {statement : D → β × D} (f : Option β → α) : allowed (fun store => (statement store).2) →
      Sequential waits allowed (Program.scope waits statement fun found => Pure.pure (f found))

namespace Sequential
variable {waits : Bool} {allowed : (D → D) → Prop}

theorem map {program : Program D α} (f : α → β) (sequential : Sequential waits allowed program) :
    Sequential waits allowed (f <$> program) :=
  sequential.bind fun value => .pure (f value)

theorem ite {p : Prop} [Decidable p] {first second : Program D α} (one : Sequential waits allowed first)
    (two : Sequential waits allowed second) : Sequential waits allowed (if p then first else second) := by
  split
  case isTrue => exact one
  case isFalse => exact two

theorem foldlM {step : β → α → Program D β} (steps : ∀ x a, Sequential waits allowed (step x a)) (xs : List α) (x : β) :
    Sequential waits allowed (xs.foldlM step x) := by
  induction xs generalizing x with
  | nil => exact .pure x
  | cons a rest ih => exact (steps x a).bind ih

theorem anyM {test : α → Program D Bool} (tests : ∀ a, Sequential waits allowed (test a)) (xs : List α) :
    Sequential waits allowed (xs.anyM test) := by
  induction xs with
  | nil => exact .pure false
  | cons a rest ih =>
    refine (tests a).bind fun found => ?_
    cases found
    case true => exact .pure true
    case false => exact ih

/-- The scope of a statement is over when the next one is sent. -/
theorem free {program : Program D α} (sequential : Sequential waits allowed program) : Free program := by
  induction sequential with
  | pure value => exact free_pure value
  | bind _ _ one two => exact free_bind one two
  | scope f _ => exact free_scope waits _ f

end Sequential

end Program

end Library.LockScopes
