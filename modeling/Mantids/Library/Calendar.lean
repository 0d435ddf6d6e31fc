import Mathlib

/-! The days of the Gregorian calendar, which is taken to reach back before its introduction: dates by their numbers
and numbers of dates. -/

set_option autoImplicit false

namespace Library.Calendar

/-! ## Stretches one after another -/

/-- Which of several stretches a place is in, and where in it. -/
def locate : (lengths : List Nat) → (place : Nat) → Nat × Nat
  | [], place => (0, place)
  | length :: rest, place =>
    if place < length then (0, place)
    else
      let (index, inside) := locate rest (place - length)
      (index + 1, inside)

theorem locate_spec {lengths : List Nat} {place : Nat} (within : place < lengths.sum) :
    ∃ bound : (locate lengths place).1 < lengths.length,
      (locate lengths place).2 < lengths[(locate lengths place).1] ∧
      (lengths.take (locate lengths place).1).sum + (locate lengths place).2 = place := by
  induction lengths generalizing place with
  | nil => exact absurd within (Nat.not_lt_zero place)
  | cons length rest ih =>
    rw [List.sum_cons] at within
    unfold locate
    split
    case isTrue inside => exact ⟨Nat.zero_lt_succ _, inside, Nat.zero_add place⟩
    case isFalse beyond =>
      obtain ⟨bound, inside, whole⟩ := ih (show place - length < rest.sum by omega)
      refine ⟨Nat.succ_lt_succ bound, inside, ?_⟩
      dsimp only
      rw [List.take_succ_cons, List.sum_cons]
      omega

/-! ## Years -/

def isLeap (year : Int) : Bool := year % 4 = 0 && (year % 100 ≠ 0 || year % 400 = 0)

/-- The days from the first of the first year on, up to a year. -/
def daysBeforeYear (year : Int) : Int := 365 * (year - 1) + (year - 1) / 4 - (year - 1) / 100 + (year - 1) / 400

def yearLength (year : Int) : Nat := if isLeap year then 366 else 365

theorem isLeap_iff (year : Int) : isLeap year = true ↔ year % 4 = 0 ∧ (year % 100 ≠ 0 ∨ year % 400 = 0) := by
  rw [isLeap, Bool.and_eq_true, Bool.or_eq_true, decide_eq_true_eq, decide_eq_true_eq, decide_eq_true_eq]

theorem daysBeforeYear_succ (year : Int) : daysBeforeYear (year + 1) = daysBeforeYear year + yearLength year := by
  unfold daysBeforeYear yearLength
  split
  case isTrue leap =>
    rw [isLeap_iff] at leap
    omega
  case isFalse common =>
    rw [isLeap_iff] at common
    omega

/-- The year of a day, by the cycles of four hundred years, a hundred, four and one; the last of the centuries and
the last of four years have a day more than the others. -/
def yearOf (ordinal : Int) : Int :=
  let inCycle := ordinal % 146097
  let century := min (inCycle / 36524) 3
  let inCentury := inCycle - 36524 * century
  let inFour := inCentury % 1461
  400 * (ordinal / 146097) + 100 * century + 4 * (inCentury / 1461) + min (inFour / 365) 3 + 1

/-- The days before the years of a place in the cycles. -/
theorem daysBeforeYear_cycles {cycle century four year : Int} (centuries : 0 ≤ century ∧ century ≤ 3)
    (fours : 0 ≤ four ∧ four ≤ 24) (years : 0 ≤ year ∧ year ≤ 3) :
    daysBeforeYear (400 * cycle + 100 * century + 4 * four + year + 1) =
      146097 * cycle + 36524 * century + 1461 * four + 365 * year := by
  unfold daysBeforeYear
  omega

theorem yearOf_bounds (ordinal : Int) :
    daysBeforeYear (yearOf ordinal) ≤ ordinal ∧ ordinal < daysBeforeYear (yearOf ordinal + 1) := by
  unfold yearOf
  simp only
  generalize split : ordinal / 146097 = cycle
  generalize days : ordinal % 146097 = inCycle
  have centuries : 0 ≤ min (inCycle / 36524) 3 ∧ min (inCycle / 36524) 3 ≤ 3 := by omega
  generalize first : min (inCycle / 36524) 3 = century at centuries ⊢
  have fours : 0 ≤ (inCycle - 36524 * century) / 1461 ∧ (inCycle - 36524 * century) / 1461 ≤ 24 := by omega
  generalize second : (inCycle - 36524 * century) / 1461 = four at fours ⊢
  have years : 0 ≤ min ((inCycle - 36524 * century) % 1461 / 365) 3 ∧
      min ((inCycle - 36524 * century) % 1461 / 365) 3 ≤ 3 := by omega
  generalize third : min ((inCycle - 36524 * century) % 1461 / 365) 3 = year at years ⊢
  have before := @daysBeforeYear_cycles cycle century four year centuries fours years
  constructor
  · omega
  · rw [daysBeforeYear_succ, before]
    unfold yearLength
    split
    case isTrue => omega
    case isFalse common =>
      rw [isLeap_iff] at common
      omega

/-! ## Dates -/

def monthLengths (leap : Bool) : List Nat := [31, if leap then 29 else 28, 31, 30, 31, 30, 31, 31, 30, 31, 30, 31]

theorem length_monthLengths (leap : Bool) : (monthLengths leap).length = 12 := rfl

theorem sum_monthLengths (year : Int) : (monthLengths (isLeap year)).sum = yearLength year := by
  unfold yearLength
  cases isLeap year <;> rfl

/-- A day that there is. Months are counted from zero on, and days from one. -/
structure Date where
  year : Int
  month : Nat
  day : Nat
  first : 1 ≤ day
  last : day ≤ (monthLengths (isLeap year)).getD month 0

namespace Date

theorem month_lt (date : Date) : date.month < 12 := by
  by_contra beyond
  have none : (monthLengths (isLeap date.year)).getD date.month 0 = 0 := by
    rw [List.getD_eq_getElem?_getD, List.getElem?_eq_none (by rw [length_monthLengths]; omega), Option.getD_none]
  have first := date.first
  have last := date.last
  omega

theorem day_lt (date : Date) : date.day < 100 := by
  have last := date.last
  have month := date.month_lt
  have short : ∀ leap, ∀ month < 12, (monthLengths leap).getD month 0 ≤ 31 := by decide
  have le := short (isLeap date.year) date.month month
  omega

/-- The number of a day, from the first day of the first year on. -/
def ordinal (date : Date) : Int :=
  daysBeforeYear date.year + (((monthLengths (isLeap date.year)).take date.month).sum + (date.day - 1) : Nat)

end Date

/-- The month of a day and its place there, from zero on. -/
def placeOf (ordinal : Int) : Nat × Nat :=
  locate (monthLengths (isLeap (yearOf ordinal))) (ordinal - daysBeforeYear (yearOf ordinal)).toNat

theorem placeOf_spec (ordinal : Int) :
    (placeOf ordinal).2 + 1 ≤ (monthLengths (isLeap (yearOf ordinal))).getD (placeOf ordinal).1 0 ∧
      ((monthLengths (isLeap (yearOf ordinal))).take (placeOf ordinal).1).sum + (placeOf ordinal).2 =
        (ordinal - daysBeforeYear (yearOf ordinal)).toNat := by
  have bounds := yearOf_bounds ordinal
  rw [daysBeforeYear_succ] at bounds
  have within : (ordinal - daysBeforeYear (yearOf ordinal)).toNat < (monthLengths (isLeap (yearOf ordinal))).sum := by
    rw [sum_monthLengths]
    omega
  obtain ⟨bound, inside, whole⟩ := locate_spec within
  refine ⟨?_, whole⟩
  rw [placeOf, List.getD_eq_getElem _ _ bound]
  exact inside

/-- The date of a day. -/
def dateOf (ordinal : Int) : Date where
  year := yearOf ordinal
  month := (placeOf ordinal).1
  day := (placeOf ordinal).2 + 1
  first := Nat.le_add_left _ _
  last := (placeOf_spec ordinal).1

theorem ordinal_dateOf (ordinal : Int) : (dateOf ordinal).ordinal = ordinal := by
  have bounds := yearOf_bounds ordinal
  have whole := (placeOf_spec ordinal).2
  dsimp only [Date.ordinal, dateOf]
  rw [Nat.add_sub_cancel, whole]
  omega

end Library.Calendar
