import Mathlib

/-! Copying and comparing stretches of a store, in one go and piece by piece. -/

set_option autoImplicit false

namespace Library.Copying

section
variable {β : Type} (store : Int → β)

/-- The store after the `n` places from `src` on have been copied to those from `dest` on, all at once. -/
def copied (dest src : Int) (n : Nat) : Int → β :=
  fun address => if dest ≤ address ∧ address < dest + n then store (address - dest + src) else store address

variable {store} {dest src : Int}

@[simp] theorem copied_zero : copied store dest src 0 = store := by
  funext address
  rw [copied, if_neg (by omega)]

@[simp] theorem copied_self (n : Nat) : copied store dest dest n = store := by
  funext address
  rw [copied, Int.sub_add_cancel, ite_self]

theorem copied_inside {n : Nat} {address : Int} (first : dest ≤ address) (last : address < dest + n) :
    copied store dest src n address = store (address - dest + src) := by
  rw [copied, if_pos ⟨first, last⟩]

theorem copied_outside {n : Nat} {address : Int} (outside : address < dest ∨ dest + n ≤ address) :
    copied store dest src n address = store address := by
  rw [copied, if_neg (by omega)]

/-- A piece at the front may be copied first unless what is behind it is still to be read there. -/
theorem copied_front {first rest : Nat} (kept : dest ≤ src ∨ src + (first + rest : Nat) ≤ dest) :
    copied (copied store dest src first) (dest + first) (src + first) rest = copied store dest src (first + rest) := by
  funext address
  by_cases inside : dest ≤ address ∧ address < dest + (first + rest : Nat)
  · rw [copied_inside inside.1 inside.2]
    by_cases front : address < dest + first
    · rw [copied_outside (.inl front), copied_inside inside.1 front]
    · rw [copied_inside (by omega) (by omega), copied_outside (by omega)]
      congr 1
      omega
  · rw [copied_outside (by omega), copied_outside (by omega), copied_outside (by omega)]

/-- A piece at the back may be copied first when what is moved goes backwards. -/
theorem copied_back {first rest : Nat} (kept : src ≤ dest) :
    copied (copied store (dest + first) (src + first) rest) dest src first = copied store dest src (first + rest) := by
  funext address
  by_cases inside : dest ≤ address ∧ address < dest + (first + rest : Nat)
  · rw [copied_inside inside.1 inside.2]
    by_cases front : address < dest + first
    · rw [copied_inside inside.1 front, copied_outside (by omega)]
    · rw [copied_outside (by omega), copied_inside (by omega) (by omega)]
      congr 1
      omega
  · rw [copied_outside (by omega), copied_outside (by omega), copied_outside (by omega)]

end

section
variable {β : Type} (store : Int → β)

/-- All places of two stretches are the same. -/
def Same (first second : Int) (n : Nat) : Prop := ∀ i : Nat, i < n → store (first + i) = store (second + i)

theorem same_succ (first second : Int) (n : Nat) :
    Same store first second (n + 1) ↔ store first = store second ∧ Same store (first + 1) (second + 1) n := by
  constructor
  · intro same
    constructor
    · have here := same 0 (by omega)
      rwa [Int.natCast_zero, Int.add_zero, Int.add_zero] at here
    · intro i less
      have here := same (i + 1) (by omega)
      rwa [show first + (i + 1 : Nat) = first + 1 + i by omega,
        show second + (i + 1 : Nat) = second + 1 + i by omega] at here
  · rintro ⟨here, later⟩ i less
    cases i with
    | zero => rwa [Int.natCast_zero, Int.add_zero, Int.add_zero]
    | succ i =>
      rw [show first + (i + 1 : Nat) = first + 1 + i by omega, show second + (i + 1 : Nat) = second + 1 + i by omega]
      exact later i (by omega)

theorem same_add (first second : Int) (front back : Nat) :
    Same store first second (front + back) ↔
      Same store first second front ∧ Same store (first + front) (second + front) back := by
  induction front generalizing first second with
  | zero =>
    simp only [Nat.zero_add, Int.natCast_zero, Int.add_zero, iff_and_self]
    exact fun _ i less => absurd less (Nat.not_lt_zero i)
  | succ front ih =>
    rw [Nat.succ_add, same_succ, same_succ, ih, and_assoc, show first + 1 + (front : Int) = first + (front + 1 : Nat) by
      omega, show second + 1 + (front : Int) = second + (front + 1 : Nat) by omega]

end

section
variable {β : Type} [DecidableEq β] (value : β → β → Int) (store : Int → β)

/-- The value of the first two places that differ, and zero where all are the same. -/
def compared : (first second : Int) → (n : Nat) → Int
  | _, _, 0 => 0
  | first, second, n + 1 =>
    if store first = store second then compared (first + 1) (second + 1) n else value (store first) (store second)

variable {store} {first second : Int}

/-- What is the same in front leaves the comparison to what is behind. -/
theorem compared_of_same {front : Nat} (back : Nat) (same : Same store first second front) :
    compared value store first second (front + back) = compared value store (first + front) (second + front) back := by
  induction front generalizing first second with
  | zero => simp only [Nat.zero_add, Int.natCast_zero, Int.add_zero]
  | succ front ih =>
    rw [same_succ] at same
    rw [Nat.succ_add, compared, if_pos same.1, ih same.2]
    congr 1 <;> omega

theorem compared_same {n : Nat} (same : Same store first second n) : compared value store first second n = 0 :=
  compared_of_same value 0 same

/-- Where the front differs, what is behind it is not looked at. -/
theorem compared_of_differs {front : Nat} (back : Nat) (differs : ¬Same store first second front) :
    compared value store first second (front + back) = compared value store first second front := by
  induction front generalizing first second with
  | zero => exact absurd (fun i less => absurd less (Nat.not_lt_zero i)) differs
  | succ front ih =>
    rw [Nat.succ_add, compared, compared]
    split
    case isTrue here => exact ih fun same => differs ((same_succ store first second front).mpr ⟨here, same⟩)
    case isFalse => rfl

variable {value}

theorem compared_eq_zero_iff (apart : ∀ one other, one ≠ other → value one other ≠ 0) {n : Nat} :
    compared value store first second n = 0 ↔ Same store first second n := by
  refine ⟨?_, compared_same value⟩
  induction n generalizing first second with
  | zero => exact fun _ i less => absurd less (Nat.not_lt_zero i)
  | succ n ih =>
    intro zero
    rw [compared] at zero
    split at zero
    case isTrue here => exact (same_succ store first second n).mpr ⟨here, ih zero⟩
    case isFalse here => exact absurd zero (apart _ _ here)

end

end Library.Copying
