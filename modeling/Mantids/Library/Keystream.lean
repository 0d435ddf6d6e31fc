import Mathlib

/-! A text combined with a key stream from a position on, piece by piece. -/

set_option autoImplicit false

namespace Library

section
variable {A K : Type} (op : A → K → A) (key : Nat → K)

def combined : (position : Nat) → List A → List A
  | _, [] => []
  | position, a :: rest => op a (key position) :: combined (position + 1) rest

@[simp] theorem combined_nil (position : Nat) : combined op key position [] = [] := rfl

/-- A piece of the key stream that is long enough. -/
theorem zipWith_keys (position m : Nat) (text : List A) (enough : text.length ≤ m) :
    List.zipWith op text ((List.range' position m).map key) = combined op key position text := by
  induction text generalizing position m with
  | nil => rfl
  | cons a rest ih =>
    cases m with
    | zero => simp at enough
    | succ m =>
      rw [List.range'_succ, List.map_cons, List.zipWith_cons_cons, combined, ih (position + 1) m (by simpa using enough)]

end

end Library
