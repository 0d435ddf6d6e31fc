import Mantids.Library.Runs

/-! A stream that takes texts piece by piece, and may refuse one. -/

set_option autoImplicit false

namespace Library

section
variable {S A : Type} (accept : S → List A → Bool × S)

/-- The stream has taken all pieces of the text, in their order. -/
inductive Delivers : S → List A → S → Prop where
  | nothing (s : S) : Delivers s [] s
  | piece {s t : S} (first : List A) {rest : List A} : (accept s first).1 = true → Delivers (accept s first).2 rest t →
      Delivers s (first ++ rest) t

/-- The stream has taken pieces of the text until it refused one. -/
inductive Refuses : S → List A → Prop where
  | here {s : S} (first rest : List A) : (accept s first).1 = false → Refuses s (first ++ rest)
  | later {s : S} (first : List A) {rest : List A} : (accept s first).1 = true → Refuses (accept s first).2 rest →
      Refuses s (first ++ rest)

variable {accept} {s t u : S} {first second : List A}

theorem delivers_piece (taken : (accept s first).1 = true) : Delivers accept s first (accept s first).2 := by
  have one := Delivers.piece first taken (.nothing _)
  rwa [List.append_nil] at one

theorem Delivers.append (one : Delivers accept s first t) (two : Delivers accept t second u) :
    Delivers accept s (first ++ second) u := by
  induction one with
  | nothing s => exact two
  | piece before taken _ ih =>
    rw [List.append_assoc]
    exact .piece before taken (ih two)

theorem Delivers.refuses (one : Delivers accept s first t) (two : Refuses accept t second) :
    Refuses accept s (first ++ second) := by
  induction one with
  | nothing s => exact two
  | piece before taken _ ih =>
    rw [List.append_assoc]
    exact .later before taken (ih two)

theorem not_refuses (always : ∀ s piece, (accept s piece).1 = true) (text : List A) : ¬Refuses accept s text := by
  intro refuses
  induction refuses with
  | here first rest refused =>
    rw [always] at refused
    cases refused
  | later _ _ _ ih => exact ih

/-- A stream that appends what it takes. -/
theorem Delivers.eq_append {base result : List A}
    (delivers : Delivers (fun taken piece => (true, taken ++ piece)) base first result) : result = base ++ first := by
  induction delivers with
  | nothing s => exact (List.append_nil s).symm
  | piece before taken _ ih => rw [ih, List.append_assoc]

end

end Library
