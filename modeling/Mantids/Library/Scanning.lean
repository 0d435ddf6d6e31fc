import Mathlib

/-! Texts read by a format: whole numbers, numbers with a point, signs that have to stand there, and spaces. -/

set_option autoImplicit false

namespace Library.Scanning

abbrev Text := List UInt8

def isSpace (byte : UInt8) : Bool := byte = 32 || (9 ≤ byte && byte ≤ 13)

def isDigit (byte : UInt8) : Bool := 48 ≤ byte && byte ≤ 57

/-! ## Decimal numbers -/

def number (digits : Text) : Nat := digits.foldl (fun value digit => 10 * value + (digit.toNat - 48)) 0

/-- The last digits of a number. -/
def pad : (width : Nat) → Nat → Text
  | 0, _ => []
  | width + 1, value => pad width (value / 10) ++ [48 + UInt8.ofNat (value % 10)]

def decimal (value : Nat) : Text := pad (Nat.log 10 value + 1) value

/-- The digits of a number, of which there is one at least. -/
structure Spells (digits : Text) (value : Nat) : Prop where
  present : digits ≠ []
  all : ∀ byte ∈ digits, isDigit byte = true
  same : number digits = value

theorem isDigit_digit (value : Nat) :
    isDigit (48 + UInt8.ofNat (value % 10)) = true ∧ (48 + UInt8.ofNat (value % 10)).toNat - 48 = value % 10 := by
  have small := Nat.mod_lt value (show 0 < 10 by decide)
  revert small
  generalize value % 10 = digit
  revert digit
  decide

theorem foldl_number (start : Nat) (digits : Text) :
    digits.foldl (fun value digit => 10 * value + (digit.toNat - 48)) start =
      start * 10 ^ digits.length + number digits := by
  induction digits generalizing start with
  | nil => rw [List.foldl_nil, List.length_nil, pow_zero, Nat.mul_one, number, List.foldl_nil, Nat.add_zero]
  | cons digit rest ih =>
    rw [number, List.foldl_cons, List.foldl_cons, ih, ih (10 * 0 + _), List.length_cons]
    ring

theorem number_append (front back : Text) :
    number (front ++ back) = number front * 10 ^ back.length + number back := by
  rw [number, List.foldl_append, foldl_number]
  rfl

theorem number_lt {digits : Text} (all : ∀ byte ∈ digits, isDigit byte = true) :
    number digits < 10 ^ digits.length := by
  induction digits using List.reverseRecOn with
  | nil => exact Nat.one_pos
  | append_singleton front digit ih =>
    have less := ih fun byte member => all byte (List.mem_append_left _ member)
    have last := all digit (List.mem_append_right _ List.mem_cons_self)
    rw [isDigit, Bool.and_eq_true, decide_eq_true_eq, decide_eq_true_eq, UInt8.le_iff_toNat_le,
      UInt8.le_iff_toNat_le] at last
    have high : digit.toNat ≤ 57 := last.2
    have one : number [digit] = digit.toNat - 48 := by rw [number, List.foldl_cons, List.foldl_nil, Nat.zero_add]
    rw [number_append, one, List.length_append, List.length_singleton, pow_one, pow_succ]
    omega

theorem length_pad (width value : Nat) : (pad width value).length = width := by
  induction width generalizing value with
  | zero => rfl
  | succ width ih => rw [pad, List.length_append, ih, List.length_singleton]

theorem isDigit_pad {width value : Nat} : ∀ byte ∈ pad width value, isDigit byte = true := by
  induction width generalizing value with
  | zero => exact fun byte member => absurd member List.not_mem_nil
  | succ width ih =>
    intro byte member
    rw [pad, List.mem_append, List.mem_singleton] at member
    rcases member with front | rfl
    · exact ih byte front
    · exact (isDigit_digit value).1

theorem number_pad {width value : Nat} (fits : value < 10 ^ width) : number (pad width value) = value := by
  induction width generalizing value with
  | zero =>
    rw [pow_zero] at fits
    rw [pad, number, List.foldl_nil]
    omega
  | succ width ih =>
    have front : value / 10 < 10 ^ width := by
      rw [pow_succ] at fits
      omega
    rw [pad, number_append, ih front, List.length_singleton, number, List.foldl_cons, List.foldl_nil,
      (isDigit_digit value).2]
    omega

theorem pad_spells {width value : Nat} (positive : 0 < width) (fits : value < 10 ^ width) :
    Spells (pad width value) value where
  present := by
    intro none
    have length := length_pad width value
    rw [none, List.length_nil] at length
    omega
  all := isDigit_pad
  same := number_pad fits

/-! ## What stands in front -/

section
variable {digits rest : Text} {value : Nat}

/-- No digit follows. -/
def Stops (rest : Text) : Prop := ∀ byte ∈ rest.head?, isDigit byte = false

theorem dropWhile_digits (all : ∀ byte ∈ digits, isDigit byte = true) (stops : Stops rest) :
    (digits ++ rest).takeWhile isDigit = digits ∧ (digits ++ rest).dropWhile isDigit = rest := by
  rw [List.takeWhile_append_of_pos all, List.dropWhile_append_of_pos all]
  cases rest with
  | nil => exact ⟨List.append_nil digits, rfl⟩
  | cons byte rest =>
    have other : ¬isDigit byte = true := ne_true_of_eq_false (stops byte rfl)
    exact ⟨by rw [List.takeWhile_cons_of_neg other, List.append_nil], List.dropWhile_cons_of_neg other⟩

theorem not_space_of_digit {byte : UInt8} (digit : isDigit byte = true) :
    ¬isSpace byte = true ∧ byte ≠ 43 ∧ byte ≠ 45 := by
  revert byte
  decide +kernel

/-- What is read of a sign. -/
def sign : Text → Int × Text
  | 45 :: rest => (-1, rest)
  | 43 :: rest => (1, rest)
  | text => (1, text)

theorem sign_of_ne {text : Text} (none : ∀ byte ∈ text.head?, byte ≠ 43 ∧ byte ≠ 45) : sign text = (1, text) := by
  unfold sign
  split
  case h_1 => exact absurd rfl (none 45 rfl).2
  case h_2 => exact absurd rfl (none 43 rfl).1
  case h_3 => rfl

/-- Neither spaces nor a sign are in front of digits. -/
theorem sign_digits (spells : Spells digits value) :
    sign ((digits ++ rest).dropWhile isSpace) = (1, digits ++ rest) := by
  obtain ⟨present, all, -⟩ := spells
  cases digits with
  | nil => exact absurd rfl present
  | cons byte more =>
    obtain ⟨noSpace, noSign⟩ := not_space_of_digit (all byte List.mem_cons_self)
    rw [List.cons_append, List.dropWhile_cons_of_neg noSpace]
    apply sign_of_ne
    intro other first
    obtain rfl := Option.some.inj first
    exact noSign

/-! ## Whole numbers -/

def integer (text : Text) : Option (Int × Text) :=
  let (sign, rest) := sign (text.dropWhile isSpace)
  let digits := rest.takeWhile isDigit
  if digits = [] then none else some (sign * number digits, rest.dropWhile isDigit)

theorem integer_digits (spells : Spells digits value) (stops : Stops rest) :
    integer (digits ++ rest) = some (↑value, rest) := by
  obtain ⟨front, back⟩ := dropWhile_digits spells.all stops
  unfold integer
  rw [sign_digits spells]
  dsimp only
  rw [front, back, if_neg spells.present, spells.same, one_mul]

/-! ## Numbers with a point -/

/-- The digits behind a point. -/
def behind : Text → Text × Text
  | 46 :: rest => (rest.takeWhile isDigit, rest.dropWhile isDigit)
  | text => ([], text)

/-- The power of ten behind a number. A mark for one without digits behind it spoils the number. -/
def exponent : Text → Option (Int × Text)
  | [] => some (0, [])
  | byte :: rest =>
    if byte = 101 || byte = 69 then
      let (sign, rest) := sign rest
      let digits := rest.takeWhile isDigit
      if digits = [] then none else some (sign * number digits, rest.dropWhile isDigit)
    else some (0, byte :: rest)

def real (text : Text) : Option (ℚ × Text) :=
  let (sign, rest) := sign (text.dropWhile isSpace)
  let whole := rest.takeWhile isDigit
  let (fraction, rest) := behind (rest.dropWhile isDigit)
  if whole ++ fraction = [] then none
  else
    (exponent rest).map fun (power, rest) =>
      (sign * number (whole ++ fraction) * 10 ^ (power - fraction.length), rest)

/-- Nothing follows that is of a number. -/
def Ends (rest : Text) : Prop := ∀ byte ∈ rest.head?, isDigit byte = false ∧ byte ≠ 46 ∧ byte ≠ 69 ∧ byte ≠ 101

theorem Ends.stops (ends : Ends rest) : Stops rest := fun byte first => (ends byte first).1

theorem exponent_of_ends (ends : Ends rest) : exponent rest = some (0, rest) := by
  cases rest with
  | nil => rfl
  | cons byte rest =>
    obtain ⟨-, -, upper, lower⟩ := ends byte rfl
    rw [exponent, if_neg]
    rw [Bool.or_eq_true, decide_eq_true_eq, decide_eq_true_eq, not_or]
    exact ⟨lower, upper⟩

theorem behind_of_ends (ends : Ends rest) : behind rest = ([], rest) := by
  unfold behind
  split
  case h_1 => exact absurd rfl (ends 46 rfl).2.1
  case h_2 => rfl

theorem real_digits (spells : Spells digits value) (ends : Ends rest) :
    real (digits ++ rest) = some (↑value, rest) := by
  obtain ⟨front, back⟩ := dropWhile_digits spells.all ends.stops
  unfold real
  rw [sign_digits spells]
  dsimp only
  rw [front, back, behind_of_ends ends]
  dsimp only
  rw [List.append_nil, if_neg spells.present, exponent_of_ends ends, Option.map_some, spells.same, Int.cast_one,
    one_mul, List.length_nil, Nat.cast_zero, sub_zero, zpow_zero, mul_one]

theorem real_point (spells : Spells digits value) {fraction : Text} (all : ∀ byte ∈ fraction, isDigit byte = true)
    (ends : Ends rest) :
    real (digits ++ 46 :: (fraction ++ rest)) =
      some ((value : ℚ) + number fraction / 10 ^ fraction.length, rest) := by
  have point : Stops (46 :: (fraction ++ rest)) := by
    intro byte first
    obtain rfl := Option.some.inj first
    rfl
  obtain ⟨front, back⟩ := dropWhile_digits spells.all point
  obtain ⟨shown, after⟩ := dropWhile_digits all ends.stops
  have scale : (10 : ℚ) ^ fraction.length ≠ 0 := pow_ne_zero _ (by norm_num)
  have shownDigits : digits ++ fraction ≠ [] := fun none => spells.present (List.append_eq_nil_iff.mp none).1
  unfold real
  rw [sign_digits spells]
  dsimp only
  rw [front, back, behind]
  dsimp only
  rw [shown, after, if_neg shownDigits, exponent_of_ends ends, Option.map_some, number_append, spells.same, zero_sub,
    zpow_neg, zpow_natCast, Int.cast_one, one_mul, ← div_eq_mul_inv]
  push_cast
  rw [add_div, mul_div_cancel_right₀ _ scale]

end

/-! ## Formats -/

inductive Directive where
  | integer
  | real
  | literal (byte : UInt8)
  | space

inductive Value where
  | integer (value : Int)
  | real (value : ℚ)

/-- The value of a directive, where it has one, and what it leaves. -/
def Directive.read : Directive → Text → Option (List Value × Text)
  | .integer, text => (Scanning.integer text).map fun (value, rest) => ([.integer value], rest)
  | .real, text => (Scanning.real text).map fun (value, rest) => ([.real value], rest)
  | .literal _, [] => none
  | .literal sign, byte :: rest => if sign = byte then some ([], rest) else none
  | .space, text => some ([], text.dropWhile isSpace)

/-- The values of the directives up to the first that finds nothing. -/
def scan : List Directive → Text → List Value
  | [], _ => []
  | directive :: format, text =>
    match directive.read text with
    | none => []
    | some (values, rest) => values ++ scan format rest

section
variable {format : List Directive} {digits rest : Text} {value : Nat}

/-- A number up to a sign. -/
theorem scan_integer_literal (spells : Spells digits value) {byte : UInt8} (other : isDigit byte = false) :
    scan (.integer :: .literal byte :: format) (digits ++ byte :: rest) = .integer value :: scan format rest := by
  have stops : Stops (byte :: rest) := by
    intro first same
    obtain rfl := Option.some.inj same
    exact other
  rw [scan, Directive.read, integer_digits spells stops, Option.map_some]
  dsimp only
  rw [scan, Directive.read, if_pos rfl]
  rfl

theorem scan_real {text : Text} {value : ℚ} (read : real text = some (value, rest)) :
    scan (.real :: format) text = .real value :: scan format rest := by
  rw [scan, Directive.read, read]
  rfl

end

end Library.Scanning
