import Mathlib

/-! The literals of a script and what they denote, and where the element around it could end. -/

set_option autoImplicit false

namespace Library.Script

abbrev Text := List Char

/-! ## Values -/

/-- The code units of a character. -/
def units (c : Char) : List Nat :=
  if c.toNat < 0x10000 then [c.toNat]
  else [0xD800 + (c.toNat - 0x10000) / 1024, 0xDC00 + (c.toNat - 0x10000) % 1024]

def unitsOf (text : Text) : List Nat := text.flatMap units

/-- The values of literals. Numbers with a fraction or an exponent are those of `R`; a later property of a name stands for
an earlier one. -/
inductive Value (R : Type) where
  | null
  | bool (value : Bool)
  | integer (number : Int)
  | real (number : R)
  | string (units : List Nat)
  | array (elements : List (Value R))
  | object (prototype : Option (Value R)) (properties : List (List Nat × Value R))

namespace Value

section
variable {R : Type}

/-- What can be the prototype of an object. -/
def isPrototype : Value R → Bool
  | null | array _ | object _ _ => true
  | _ => false

/-- A definition under this name is none of a property. -/
def prototypeName : List Nat := unitsOf "__proto__".toList

def ofDefinitions (definitions : List (List Nat × Value R)) : Value R :=
  object ((definitions.filter fun definition => definition.1 = prototypeName ∧ definition.2.isPrototype).head?.map (·.2))
    (definitions.filter fun definition => definition.1 ≠ prototypeName)

end

end Value

/-! ## Numbers -/

/-- The double next to a whole number that is within its range; half of a step goes to the even one. -/
def nearest (number : Nat) : Nat :=
  let step := 2 ^ (number.log2 - 52)
  if step < 2 * (number % step) ∨ 2 * (number % step) = step ∧ number / step % 2 = 1 then (number / step + 1) * step
  else number / step * step

def nearestInt (number : Int) : Int := number.sign * nearest number.natAbs

/-- The doubles among the whole numbers are those that end in zeros behind their first 53 bits. -/
theorem nearest_eq_iff (number : Nat) : nearest number = number ↔ 2 ^ (number.log2 - 52) ∣ number := by
  have positive : 0 < 2 ^ (number.log2 - 52) := Nat.two_pow_pos _
  unfold nearest
  generalize 2 ^ (number.log2 - 52) = step at positive
  have whole := Nat.div_add_mod number step
  have small := Nat.mod_lt number positive
  rw [Nat.dvd_iff_mod_eq_zero, Nat.mul_comm] at *
  dsimp only
  split
  · rw [Nat.add_mul, Nat.one_mul]
    omega
  · omega

theorem nearestInt_eq_iff (number : Int) :
    nearestInt number = number ↔ 2 ^ (number.natAbs.log2 - 52) ∣ number.natAbs := by
  rw [← nearest_eq_iff, nearestInt]
  rcases Int.lt_trichotomy number 0 with negative | zero | positive
  · rw [Int.sign_eq_neg_one_of_neg negative]
    omega
  · rw [zero]
    decide
  · rw [Int.sign_eq_one_of_pos positive]
    omega

def isNumeric (c : Char) : Bool := c.isDigit || c = '+' || c = '-' || c = '.' || c = 'e' || c = 'E'

def digitsValue (digits : Text) : Option Nat :=
  if digits ≠ [] ∧ digits.all Char.isDigit then some (Nat.ofDigitChars 10 digits 0) else none

section
variable {R : Type} (read : Text → Option R)

/-- A sign stands before the literal. -/
def number (token : Text) : Option (Value R) :=
  match if token.head? = some '-' then (digitsValue token.tail).map fun n => -(nearest n : Int)
    else (digitsValue token).map fun n => (nearest n : Int) with
  | some n => some (.integer n)
  | none => (read token).map .real

def readNumber (text : Text) : Option (Value R × Text) :=
  (number read (text.takeWhile isNumeric)).map fun value => (value, text.dropWhile isNumeric)

end

/-! ## Strings -/

def hexValue (c : Char) : Option Nat :=
  if c.isDigit then some (c.toNat - 48)
  else if 'a' ≤ c ∧ c ≤ 'f' then some (c.toNat - 87)
  else if 'A' ≤ c ∧ c ≤ 'F' then some (c.toNat - 55)
  else none

def readHex : Nat → Nat → Text → Option (Nat × Text)
  | 0, value, text => some (value, text)
  | _ + 1, _, [] => none
  | digits + 1, value, c :: rest => (hexValue c).bind fun digit => readHex digits (value * 16 + digit) rest

/-- What a single character means behind a backslash: most mean themselves. -/
def escaped (c : Char) : List Nat :=
  if c = 'b' then [8]
  else if c = 't' then [9]
  else if c = 'n' then [10]
  else if c = 'v' then [11]
  else if c = 'f' then [12]
  else if c = 'r' then [13]
  else if c = '\n' then []
  else units c

/-- Behind a backslash. Octal escapes and those with braces are not read. -/
def readEscape : Text → Option (List Nat × Text)
  | [] => none
  | c :: rest =>
    if c = 'u' then (readHex 4 0 rest).map fun read => ([read.1], read.2)
    else if c = 'x' then (readHex 2 0 rest).map fun read => ([read.1], read.2)
    else if c.isDigit then none
    else some (escaped c, rest)

/-- Behind the opening quotation mark. -/
def readChars : Nat → Text → Option (List Nat × Text)
  | 0, _ | _ + 1, [] => none
  | turns + 1, c :: rest =>
    if c = '"' then some ([], rest)
    else if c = '\\' then
      (readEscape rest).bind fun first => (readChars turns first.2).map fun read => (first.1 ++ read.1, read.2)
    else if c = '\n' ∨ c = '\r' then none
    else (readChars turns rest).map fun read => (units c ++ read.1, read.2)

def readString (text : Text) : Option (List Nat × Text) := readChars (text.length + 1) text

/-! ## Literals -/

section
variable {R : Type} (read : Text → Option R)

mutual

/-- Without blanks between the tokens. -/
def readValue : Nat → Text → Option (Value R × Text)
  | 0, _ | _ + 1, [] => none
  | turns + 1, first :: rest =>
    if first = '"' then (readString rest).map fun read => (.string read.1, read.2)
    else if first = '[' then
      if rest.head? = some ']' then some (.array [], rest.tail)
      else (readElements turns rest).map fun read => (.array read.1, read.2)
    else if first = '{' then
      if rest.head? = some '}' then some (.object none [], rest.tail)
      else (readProperties turns rest).map fun read => (.ofDefinitions read.1, read.2)
    else if "null".toList <+: first :: rest then some (.null, rest.drop 3)
    else if "true".toList <+: first :: rest then some (.bool true, rest.drop 3)
    else if "false".toList <+: first :: rest then some (.bool false, rest.drop 4)
    else readNumber read (first :: rest)

def readElements : Nat → Text → Option (List (Value R) × Text)
  | 0, _ => none
  | turns + 1, text =>
    (readValue turns text).bind fun first =>
      if first.2.head? = some ']' then some ([first.1], first.2.tail)
      else if first.2.head? = some ',' then
        (readElements turns first.2.tail).map fun others => (first.1 :: others.1, others.2)
      else none

def readProperties : Nat → Text → Option (List (List Nat × Value R) × Text)
  | 0, _ => none
  | turns + 1, text =>
    if text.head? = some '"' then
      (readString text.tail).bind fun name =>
        if name.2.head? = some ':' then
          (readValue turns name.2.tail).bind fun first =>
            if first.2.head? = some '}' then some ([(name.1, first.1)], first.2.tail)
            else if first.2.head? = some ',' then
              (readProperties turns first.2.tail).map fun others => ((name.1, first.1) :: others.1, others.2)
            else none
        else none
    else none

end

/-- The value of a text that is one literal. -/
def readLiteral (text : Text) : Option (Value R) :=
  (readValue read (2 * text.length + 1) text).bind fun value => if value.2 = [] then some value.1 else none

end

/-! ## The element of the script -/

/-- The characters at the front of the text, one after the other, are of these kinds. -/
def starts : List (Char → Bool) → Text → Bool
  | [], _ => true
  | _ :: _, [] => false
  | kind :: kinds, c :: rest => kind c && starts kinds rest

/-- The sign that every tag begins with. -/
def opens (c : Char) : Bool := c = '<'

/-- A comment begins. -/
def comment : List (Char → Bool) := opens :: ['!', '-', '-'].map fun sign c => decide (c = sign)

/-- The name of the tag that ends the element, in any case, and one of the signs that may end a name. -/
def endTag (ends : List Char) : List (Char → Bool) :=
  opens :: (['/', 's', 'c', 'r', 'i', 'p', 't'].map fun sign c => decide (c.toLower = sign)) ++ [fun c => decide (c ∈ ends)]

/-- What ends the name of a tag. -/
def nameEnds : List Char := ['\t', '\n', '\x0c', ' ', '/', '>']

/-- Such characters begin within the text, before what follows it. -/
def occurs (kinds : List (Char → Bool)) : Text → Text → Bool
  | [], _ => false
  | c :: rest, after => starts kinds (c :: rest ++ after) || occurs kinds rest after

section
variable {kinds : List (Char → Bool)}

theorem occurs_append (front text after : Text) :
    occurs kinds (front ++ text) after = (occurs kinds front (text ++ after) || occurs kinds text after) := by
  induction front with
  | nil => rfl
  | cons c rest ih => simp only [List.cons_append, occurs, ih, Bool.or_assoc, List.append_assoc]

theorem occurs_other {c : Char} (other : c ≠ '<') (text after : Text) :
    occurs (opens :: kinds) (c :: text) after = occurs (opens :: kinds) text after := by
  have closed : opens c = false := decide_eq_false other
  rw [occurs, List.cons_append, starts, closed]
  rfl

theorem occurs_absent {text : Text} (absent : '<' ∉ text) (after : Text) : occurs (opens :: kinds) text after = false := by
  induction text with
  | nil => rfl
  | cons c rest ih =>
    rw [List.mem_cons, not_or] at absent
    rw [occurs_other (Ne.symm absent.1), ih absent.2]

end

end Library.Script
