import Mathlib

/-! Rounding to the numbers of a binary floating-point format, and what it does to the whole part of a number. -/

set_option autoImplicit false

namespace Library.Rounding

/-- The nearest integer, and the even one of two that are. -/
def nearestEven (value : ℚ) : ℤ :=
  if value - ⌊value⌋ < 1 / 2 ∨ value - ⌊value⌋ = 1 / 2 ∧ ⌊value⌋ % 2 = 0 then ⌊value⌋ else ⌊value⌋ + 1

/-- The distance of neighbours next to a number in a format with so many binary digits, the last of which stands for
no less than `2 ^ least`. -/
def spacing (precision : ℕ) (least : ℤ) (value : ℚ) : ℚ := 2 ^ max (Int.log 2 |value| + 1 - precision) least

def rounded (precision : ℕ) (least : ℤ) (value : ℚ) : ℚ :=
  nearestEven (value / spacing precision least value) * spacing precision least value

/-! ## Steps that divide one -/

section
variable {value : ℚ} {steps : ℕ}

theorem nearestEven_eq_floor_or (value : ℚ) : nearestEven value = ⌊value⌋ ∨ nearestEven value = ⌊value⌋ + 1 := by
  unfold nearestEven
  split
  case isTrue => exact .inl rfl
  case isFalse => exact .inr rfl

theorem rounded_nonneg {precision : ℕ} {least : ℤ} (nonneg : 0 ≤ value) : 0 ≤ rounded precision least value := by
  have positive : 0 < spacing precision least value := zpow_pos two_pos _
  have whole : (0 : ℤ) ≤ nearestEven (value / spacing precision least value) := by
    have floor := Int.floor_nonneg.mpr (div_nonneg nonneg positive.le)
    rcases nearestEven_eq_floor_or (value / spacing precision least value) with same | next
    · omega
    · omega
  exact mul_nonneg (Int.cast_nonneg whole) positive.le

/-- The whole parts of a number and of its steps. -/
theorem floor_steps (value : ℚ) (positive : 0 < steps) :
    ⌊value⌋ * steps ≤ ⌊value * steps⌋ ∧ ⌊value * steps⌋ + 1 ≤ (⌊value⌋ + 1) * steps := by
  have size : (0 : ℚ) < steps := Nat.cast_pos.mpr positive
  constructor
  · apply Int.le_floor.mpr
    push_cast
    exact mul_le_mul_of_nonneg_right (Int.floor_le value) size.le
  · apply Int.add_one_le_iff.mpr
    apply Int.floor_lt.mpr
    push_cast
    exact mul_lt_mul_of_pos_right (Int.lt_floor_add_one value) size

/-- A number is rounded up to the next whole one where no more than half a step is missing. -/
theorem nearestEven_eq_next_iff (even : 2 ∣ steps) (positive : 0 < steps) :
    nearestEven (value * steps) = (⌊value⌋ + 1) * steps ↔ (⌊value⌋ + 1 - value) * steps ≤ 1 / 2 := by
  obtain ⟨-, below⟩ := floor_steps value positive
  have next : (((⌊value⌋ + 1) * steps : ℤ) : ℚ) = (⌊value⌋ + 1) * steps := by
    push_cast
    rfl
  have missing : (⌊value⌋ + 1 - value) * steps = (((⌊value⌋ + 1) * steps : ℤ) : ℚ) - value * steps := by
    rw [next, sub_mul]
  have parity : (⌊value⌋ + 1) * (steps : ℤ) % 2 = 0 := by
    apply Int.emod_eq_zero_of_dvd
    exact dvd_mul_of_dvd_right (Int.natCast_dvd_natCast.mpr even) _
  rw [missing]
  generalize (⌊value⌋ + 1) * (steps : ℤ) = whole at below parity ⊢
  generalize value * steps = place at below ⊢
  have low := Int.floor_le place
  have high := Int.lt_floor_add_one place
  unfold nearestEven
  constructor
  · intro same
    split at same
    case isTrue => omega
    case isFalse up =>
      rw [not_or, not_lt] at up
      have cast : ((⌊place⌋ : ℤ) : ℚ) + 1 = whole := by
        rw [← same]
        push_cast
        rfl
      linarith only [up.1, cast]
  · intro less
    have last : ⌊place⌋ + 1 = whole := by
      apply le_antisymm below
      have close : (whole : ℚ) < ((⌊place⌋ + 1 + 1 : ℤ) : ℚ) := by
        push_cast
        linarith only [less, high]
      exact Int.lt_add_one_iff.mp (Int.cast_lt.mp close)
    have cast : ((⌊place⌋ : ℤ) : ℚ) + 1 = whole := by
      rw [← last]
      push_cast
      rfl
    rw [if_neg, last]
    rintro (under | ⟨-, odd⟩)
    · linarith only [under, less, cast]
    · omega

theorem floor_nearestEven (even : 2 ∣ steps) (positive : 0 < steps) :
    ⌊(nearestEven (value * steps) : ℚ) / steps⌋ =
      if (⌊value⌋ + 1 - value) * steps ≤ 1 / 2 then ⌊value⌋ + 1 else ⌊value⌋ := by
  have size : (0 : ℚ) < steps := Nat.cast_pos.mpr positive
  obtain ⟨above, below⟩ := floor_steps value positive
  split
  case isTrue close =>
    rw [(nearestEven_eq_next_iff even positive).mpr close, Int.cast_mul, Int.cast_natCast, mul_div_assoc,
      div_self size.ne', mul_one, Int.floor_intCast]
  case isFalse far =>
    have apart := mt (nearestEven_eq_next_iff even positive).mp far
    have bounds : ⌊value⌋ * steps ≤ nearestEven (value * steps) ∧
        nearestEven (value * steps) < (⌊value⌋ + 1) * steps := by
      rcases nearestEven_eq_floor_or (value * steps) with same | next
      · rw [same]
        exact ⟨above, by omega⟩
      · rw [next] at apart ⊢
        exact ⟨by omega, lt_of_le_of_ne below apart⟩
    rw [Int.floor_eq_iff, le_div_iff₀ size, div_lt_iff₀ size]
    constructor
    · exact_mod_cast bounds.1
    · exact_mod_cast bounds.2

end

/-! ## Small numbers -/

section
variable {precision : ℕ} {least : ℤ} {value : ℚ}

/-- Numbers that leave a digit behind the point have steps that divide one. -/
theorem spacing_steps (negative : least < 0) (nonneg : 0 ≤ value) (small : value < 2 ^ (precision - 1))
    (digits : 2 ≤ precision) :
    ∃ steps : ℕ, 2 ∣ steps ∧ 0 < steps ∧ spacing precision least value = 1 / steps := by
  have exponent : max (Int.log 2 |value| + 1 - precision) least < 0 := by
    apply max_lt _ negative
    rw [abs_of_nonneg nonneg]
    rcases nonneg.eq_or_lt with zero | positive
    · rw [← zero, Int.log_zero_right]
      omega
    · have below : Int.log 2 value < ((precision - 1 : ℕ) : ℤ) := by
        rw [← Int.lt_zpow_iff_log_lt one_lt_two positive, zpow_natCast, Nat.cast_ofNat]
        exact small
      omega
  generalize places : -(max (Int.log 2 |value| + 1 - precision) least) = behind
  refine ⟨2 ^ behind.toNat, dvd_pow_self 2 (by omega), Nat.two_pow_pos _, ?_⟩
  rw [spacing, ← neg_neg (max _ least), places, zpow_neg, one_div, Nat.cast_pow, Nat.cast_ofNat, ← zpow_natCast,
    Int.toNat_of_nonneg (by omega)]

/-- The whole part of a number stays unless less than half a step is missing to the next one. -/
theorem floor_rounded (negative : least < 0) (nonneg : 0 ≤ value) (small : value < 2 ^ (precision - 1))
    (digits : 2 ≤ precision) :
    ⌊rounded precision least value⌋ =
      if ⌊value⌋ + 1 - value ≤ spacing precision least value / 2 then ⌊value⌋ + 1 else ⌊value⌋ := by
  obtain ⟨steps, even, positive, step⟩ := spacing_steps negative nonneg small digits
  have size : (0 : ℚ) < steps := Nat.cast_pos.mpr positive
  rw [rounded, step, div_div_eq_mul_div, div_one, mul_one_div, floor_nearestEven even positive]
  congr 1
  rw [← le_div_iff₀ size, div_div, div_div, mul_comm]

end

end Library.Rounding
