import Mathlib

/-! The values of the JSON library, as far as the macros of `json.h` read them. -/

set_option autoImplicit false

namespace Mantids

inductive Json where
  | null
  | bool (value : Bool)
  | number (value : Rat)
  | string (value : String)
  | array (items : List Json)
  | object (members : List (String × Json))

namespace Json

/-- What is neither an object nor null has no members to ask for: the library throws. -/
def member (j : Json) (x : String) : Option Json :=
  match j with
  | object members => some ((members.lookup x).getD null)
  | null => some null
  | _ => none

def find (j : Json) (x : String) : Option Json :=
  match j with
  | object members => members.lookup x
  | _ => none

def asString (j : Json) (x default : String) : String :=
  match j.find x with
  | some (string value) => value
  | _ => default

def asBool (j : Json) (x : String) (default : Bool) : Bool :=
  match j.find x with
  | some (bool value) => value
  | _ => default

/-- Whole numbers below the bound, also where they are written with a fraction or an exponent. -/
def asNat (bound : Nat) (j : Json) (x : String) (default : Nat) : Nat :=
  match j.find x with
  | some (number value) => if value.den = 1 ∧ 0 ≤ value.num ∧ value.num < bound then value.num.toNat else default
  | _ => default

def asUInt (j : Json) (x : String) (default : Nat) : Nat := asNat (2 ^ 32) j x default

def asUInt64 (j : Json) (x : String) (default : Nat) : Nat := asNat (2 ^ 64) j x default

/-! ## Building answers -/

/-- An array comes into being with its first item. -/
def field (name : String) (items : List Json) : List (String × Json) :=
  if items.isEmpty then [] else [(name, array items)]

def ofItems (items : List Json) : Json := if items.isEmpty then null else array items

/-! ## Reading answers -/

def items (j : Json) (x : String) : List Json :=
  match j.find x with
  | some (array items) => items
  | _ => []

/-- The names of the items under a field. -/
def names (j : Json) (x : String) : List String := (j.items x).map fun item => item.asString "name" ""

end Json

end Mantids
