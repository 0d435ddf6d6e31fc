import Mathlib

/-! One comparison of an expression (`atomicexpression.cpp`, `atomicexpressionside.cpp`), over a library for JSON
values and regular expressions. -/

set_option autoImplicit false

namespace Mantids.Scripts.Expressions

abbrev Text := List Char

def quotation : Char := Char.ofNat 34

def newline : Char := Char.ofNat 10

def isSpace (c : Char) : Bool := c = ' ' || (9 ≤ c.toNat && c.toNat ≤ 13)

/-- `boost::trim`. -/
def trim (text : Text) : Text := ((text.dropWhile isSpace).reverse.dropWhile isSpace).reverse

def digitsValue (digits : Text) : Nat := Nat.ofDigitChars 10 (digits.takeWhile Char.isDigit) 0

/-- `strtoul` with base 10, on 64 bits: it stays at the greatest number, and negates within the bits. -/
def strtoul (text : Text) : Nat :=
  match text.dropWhile isSpace with
  | '-' :: digits => if digitsValue digits < 2 ^ 64 then (2 ^ 64 - digitsValue digits) % 2 ^ 64 else 2 ^ 64 - 1
  | '+' :: digits => min (digitsValue digits) (2 ^ 64 - 1)
  | digits => min (digitsValue digits) (2 ^ 64 - 1)

/-- What `Json::Path` and `Json::Value` answer, and whether a regular expression matches a text. -/
structure Libraries (Json : Type) where
  resolve : (path : Text) → Json → Json
  size : Json → Nat
  isNull : Json → Bool
  asString : Json → Text
  item : Json → Nat → Json
  regexMatch : (regexp : Text) → (ignoreCase : Bool) → Text → Bool

inductive EExpressionSideMode where
  | exprModeNumeric
  | exprModeStaticString
  | exprModeJsonPath
  | exprModeNull
  deriving DecidableEq, Repr

structure AtomicExpressionSide where
  expr : Text
  mode : EExpressionSideMode
  deriving DecidableEq, Repr

/-- What stands for a static text in an expression. -/
def staticWord : Text := "_STATIC_".toList

namespace AtomicExpressionSide

def staticIndex (expr : Text) : Nat := strtoul (expr.drop 8)

def calcMode (staticTexts : List Text) (expr : Text) : Option EExpressionSideMode :=
  if expr = [] then some .exprModeNull
  else if expr.head? = some '$' then some .exprModeJsonPath
  else if expr.all Char.isDigit then some .exprModeNumeric
  else if staticWord <+: expr ∧ staticIndex expr < staticTexts.length then some .exprModeStaticString
  else none

/-- `setExpr` and `calcMode`. -/
def setExpr (staticTexts : List Text) (value : Text) : Option AtomicExpressionSide :=
  (calcMode staticTexts (trim value)).map fun mode => ⟨trim value, mode⟩

section
variable {Json : Type} (libraries : Libraries Json) (staticTexts : List Text)

def staticText (side : AtomicExpressionSide) : Text := staticTexts.getD (staticIndex side.expr) []

/-- The texts of a side. One that is taken for a regular expression has none. -/
def resolve (side : AtomicExpressionSide) (v : Json) (resolveRegex : Bool) : List Text :=
  match side.mode with
  | .exprModeJsonPath =>
    let result := libraries.resolve (side.expr.drop 1) v
    if libraries.size result = 0 ∧ libraries.isNull result = false then [libraries.asString result]
    else (List.range (libraries.size result)).map fun i => libraries.asString (libraries.item result i)
  | .exprModeStaticString => if resolveRegex then [] else [side.staticText staticTexts]
  | .exprModeNumeric => if resolveRegex then [] else [side.expr]
  | .exprModeNull => []

/-- What `recompileRegex` was given by the time of a match. -/
def getRegexp (side : AtomicExpressionSide) : Option Text :=
  match side.mode with
  | .exprModeStaticString => some (side.staticText staticTexts)
  | .exprModeNumeric => some side.expr
  | .exprModeJsonPath | .exprModeNull => none

end

end AtomicExpressionSide

inductive EEvalOperator where
  | evalOperatorContains
  | evalOperatorRegexMatch
  | evalOperatorIsEqual
  | evalOperatorStartsWith
  | evalOperatorEndsWith
  | evalOperatorIsNull
  deriving DecidableEq, Repr

namespace EEvalOperator

/-- In the order in which they are tried. -/
def all : List EEvalOperator :=
  [evalOperatorIsEqual, evalOperatorRegexMatch, evalOperatorContains, evalOperatorStartsWith, evalOperatorEndsWith,
    evalOperatorIsNull]

def name : EEvalOperator → Text
  | evalOperatorIsEqual => "IS_EQUAL(".toList
  | evalOperatorRegexMatch => "REGEX_MATCH(".toList
  | evalOperatorContains => "CONTAINS(".toList
  | evalOperatorStartsWith => "STARTS_WITH(".toList
  | evalOperatorEndsWith => "ENDS_WITH(".toList
  | evalOperatorIsNull => "IS_NULL(".toList

/-- `([^\)]+)\)$`. -/
def lastArgument (arguments : Text) : Option Text :=
  if arguments.getLast? = some ')' ∧ arguments.dropLast ≠ [] ∧ ')' ∉ arguments.dropLast then some arguments.dropLast
  else none

/-- The regular expression of the operator: its name, and one argument, or two that the first comma parts. -/
def decompose (op : EEvalOperator) (expr : Text) : Option (Text × Text) :=
  if op.name <+: expr then
    let arguments := expr.drop op.name.length
    if op = evalOperatorIsNull then (lastArgument arguments).map fun left => (left, [])
    else if arguments.takeWhile (· ≠ ',') = [] then none
    else
      match arguments.dropWhile (· ≠ ',') with
      | [] => none
      | _ :: behind => (lastArgument behind).map fun right => (arguments.takeWhile (· ≠ ','), right)
  else none

end EEvalOperator

structure AtomicExpression where
  evalOperator : EEvalOperator
  negativeExpression : Bool
  ignoreCase : Bool
  left : AtomicExpressionSide
  right : AtomicExpressionSide
  deriving DecidableEq, Repr

namespace AtomicExpression

def calcNegative (negativeExpression r : Bool) : Bool := if negativeExpression then !r else r

def substractExpressions (staticTexts : List Text) (expr : Text) (op : EEvalOperator) :
    Option (AtomicExpressionSide × AtomicExpressionSide) :=
  match op.decompose expr with
  | none => none
  | some (left, right) =>
    match AtomicExpressionSide.setExpr staticTexts left, AtomicExpressionSide.setExpr staticTexts right with
    | some left, some right => some (left, right)
    | _, _ => none

/-- A mark in front of the rest of an expression. -/
def marked (mark : Char) (expr : Text) : Bool × Text := if expr.head? = some mark then (true, expr.drop 1) else (false, expr)

def compile (staticTexts : List Text) (expr : Text) : Option AtomicExpression :=
  let (negativeExpression, expr) := marked '!' expr
  let (ignoreCase, expr) := marked 'i' expr
  EEvalOperator.all.findSome? fun op =>
    (substractExpressions staticTexts expr op).map fun (left, right) => ⟨op, negativeExpression, ignoreCase, left, right⟩

def evaluate {Json : Type} (libraries : Libraries Json) (staticTexts : List Text) (expression : AtomicExpression)
    (values : Json) : Bool :=
  let regex := expression.evalOperator = .evalOperatorRegexMatch
  let lvalues := expression.left.resolve libraries staticTexts values regex
  let rvalues := expression.right.resolve libraries staticTexts values regex
  let cased := fun (value : Text) => if expression.ignoreCase then value.map Char.toUpper else value
  calcNegative expression.negativeExpression <|
    match expression.evalOperator with
    | .evalOperatorEndsWith => lvalues.any fun lvalue => rvalues.any fun rvalue => cased rvalue <:+ cased lvalue
    | .evalOperatorStartsWith => lvalues.any fun lvalue => rvalues.any fun rvalue => cased rvalue <+: cased lvalue
    | .evalOperatorIsEqual => rvalues.any fun rvalue => lvalues.any fun lvalue => cased rvalue = cased lvalue
    | .evalOperatorIsNull => lvalues.isEmpty
    | .evalOperatorContains => lvalues.any fun lvalue => rvalues.any fun rvalue => cased rvalue <:+: cased lvalue
    | .evalOperatorRegexMatch =>
      match expression.right.getRegexp staticTexts with
      | some regexp => lvalues.any fun lvalue => libraries.regexMatch regexp expression.ignoreCase lvalue
      | none => false

end AtomicExpression

end Mantids.Scripts.Expressions
