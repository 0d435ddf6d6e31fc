import Mantids.Library.Replacement
import Mantids.Scripts.AtomicExpression

/-! Expressions of comparisons, groups and connectives (`jsoneval.cpp`): how a text is compiled, and how what comes
of it is evaluated. -/

set_option autoImplicit false

namespace Mantids.Scripts.Expressions

open Library

inductive EEvalMode where
  | evalModeOr
  | evalModeAnd
  | evalModeUndefined
  deriving DecidableEq, Repr

/-- A comparison, or the position of a sub expression. -/
inductive AtomExpression where
  | atomic (expression : AtomicExpression)
  | subExpression (pos : Nat)
  deriving DecidableEq, Repr

/-- The mode of an expression that does not compile may never have been set. -/
inductive JSONEval where
  | mk (evalMode : Option EEvalMode) (negativeExpression : Bool) (atomExpressions : List AtomExpression)
    (subExpressions : List JSONEval) (lastError : String) (isCompiled : Bool)

/-- What stands for a sub expression. -/
def subExprWord : Text := "_SUBEXPR_".toList

namespace JSONEval

/-! ## Static texts -/

def quoted (text : Text) : Text := quotation :: (text ++ [quotation])

/-- `regex_search` for what stands between two quotation marks. -/
def searchStaticText (expr : Text) : Option Text :=
  match expr.dropWhile (· ≠ quotation) with
  | [] => none
  | _ :: rest => if quotation ∈ rest then some (rest.takeWhile (· ≠ quotation)) else none

def staticMessage (pos : Nat) : Text := staticWord ++ Nat.toDigits 10 pos

/-- Each turn takes quotation marks away, so there are fewer turns than characters. -/
def precompileStaticTexts : (turns : Nat) → (staticTexts : List Text) → Text → List Text × Text
  | 0, staticTexts, expr => (staticTexts, expr)
  | turns + 1, staticTexts, expr =>
    match searchStaticText expr with
    | none => (staticTexts, expr)
    | some text =>
      precompileStaticTexts turns (staticTexts ++ [text])
        (replaceAll (quoted text) (staticMessage staticTexts.length) expr)

def doubleSpace : Text := [' ', ' ']

def compressSpaces : (turns : Nat) → Text → Text
  | 0, expr => expr
  | turns + 1, expr =>
    if doubleSpace <:+: expr then compressSpaces turns (replaceAll doubleSpace [' '] expr) else expr

/-! ## Sub expressions -/

def subExprMessage (pos : Nat) : Text := subExprWord ++ Nat.toDigits 10 pos

/-- Where the scan of `detectSubExpr` ends: at the end of the text, at a parenthesis that closes nothing, or at one
that closes a first level. -/
inductive Scan where
  | balanced
  | unbalanced
  | closed (firstByte i : Nat)
  deriving DecidableEq, Repr

def scan : Text → (i level firstByte : Nat) → Scan
  | [], _, _, _ => .balanced
  | c :: rest, i, level, firstByte =>
    if c = '(' then scan rest (i + 1) (level + 1) (if level = 0 then i else firstByte)
    else if c = ')' then
      (if level = 0 then .unbalanced
      else if level = 1 then .closed firstByte i
      else scan rest (i + 1) (level - 1) firstByte)
    else scan rest (i + 1) level firstByte

/-- A group that was taken out of the text, and the text with its word in place of it. -/
structure Detected where
  subexpr : Text
  negative : Bool
  expr : Text

/-- The parentheses of a first level. Behind a letter or a digit they are those of a function. -/
def takeOut (expr : Text) (pos firstByte i : Nat) : Nat × Option Detected :=
  let subexpr := (expr.drop (firstByte + 1)).take (i - firstByte - 1)
  let before := if 0 < firstByte then expr[firstByte - 1]? else none
  if before.any Char.isAlphanum then (i + 1, none)
  else if before = some '!' then
    (0, some ⟨subexpr, true, replaceFirst ('!' :: '(' :: (subexpr ++ [')'])) (subExprMessage pos) expr⟩)
  else (0, some ⟨subexpr, false, replaceFirst ('(' :: (subexpr ++ [')'])) (subExprMessage pos) expr⟩)

/-- The next position, and a group if one was found. -/
def detectSubExpr (expr : Text) (start pos : Nat) : Nat × Option Detected :=
  match scan (expr.drop start) start 0 0 with
  | .balanced => (expr.length, none)
  | .unbalanced => (expr.length + 1, none)
  | .closed firstByte i => takeOut expr pos firstByte i

section
variable (compileSub : (staticTexts : List Text) → (negativeExpression : Bool) → Text → JSONEval × List Text)

/-- The loop over `detectSubExpr`, up to the end of the text or an error. -/
def detectLoop : (turns sePos : Nat) → Text → (staticTexts : List Text) → (subExpressions : List JSONEval) →
    Bool × Text × List Text × List JSONEval
  | 0, _, expr, staticTexts, subExpressions => (false, expr, staticTexts, subExpressions)
  | turns + 1, sePos, expr, staticTexts, subExpressions =>
    match detectSubExpr expr sePos subExpressions.length with
    | (_, some found) =>
      let (sub, staticTexts) := compileSub staticTexts found.negative found.subexpr
      detectLoop turns 0 found.expr staticTexts (subExpressions ++ [sub])
    | (sePos, none) =>
      if sePos = expr.length then (true, expr, staticTexts, subExpressions)
      else if sePos = expr.length + 1 then (false, expr, staticTexts, subExpressions)
      else detectLoop turns sePos expr staticTexts subExpressions

end

/-! ## Atoms -/

inductive AtomError where
  | invalidSubExpression
  | invalidAtomicExpression
  deriving DecidableEq, Repr

def compileAtom (staticTexts : List Text) (subExpressions : Nat) (atomicExpr : Text) : Except AtomError AtomExpression :=
  if subExprWord <+: atomicExpr then
    (if subExpressions ≤ strtoul (atomicExpr.drop 9) then .error .invalidSubExpression
    else .ok (.subExpression (strtoul (atomicExpr.drop 9))))
  else
    match AtomicExpression.compile staticTexts atomicExpr with
    | none => .error .invalidAtomicExpression
    | some expression => .ok (.atomic expression)

/-- Up to the first that does not compile. -/
def compileAtoms (staticTexts : List Text) (subExpressions : Nat) : List Text → List AtomExpression × Option AtomError
  | [] => ([], none)
  | atomicExpr :: rest =>
    match compileAtom staticTexts subExpressions atomicExpr with
    | .error e => ([], some e)
    | .ok atom =>
      let (atoms, e) := compileAtoms staticTexts subExpressions rest
      (atom :: atoms, e)

/-! ## The compiler -/

def andWord : Text := " && ".toList

def orWord : Text := " || ".toList

/-- What is done with the text when it holds no groups any more. -/
def compileMembers (staticTexts : List Text) (negativeExpression : Bool) (subExpressions : List JSONEval)
    (expr : Text) : JSONEval :=
  if andWord <:+: expr ∧ orWord <:+: expr then
    .mk (some .evalModeUndefined) negativeExpression [] subExpressions
      "Expression with both and/or and no precedence order" false
  else
    let evalMode := if andWord <:+: expr then EEvalMode.evalModeAnd else .evalModeOr
    let expr := replaceAll (if andWord <:+: expr then andWord else orWord) [newline] expr
    if ' ' ∈ expr then
      .mk (some evalMode) negativeExpression [] subExpressions "Invalid Operator (only and/or is admitted)" false
    else
      match compileAtoms staticTexts subExpressions.length (expr.splitOn newline) with
      | (atoms, none) => .mk (some evalMode) negativeExpression atoms subExpressions "" true
      | (atoms, some .invalidSubExpression) =>
        .mk (some evalMode) negativeExpression atoms subExpressions "Invalid Sub Expression #" false
      | (atoms, some .invalidAtomicExpression) =>
        .mk (some .evalModeUndefined) negativeExpression atoms subExpressions "Invalid Atomic Expression" false

/-- The constructors that are given a text. A sub expression has a parenthesis less than what it is taken from. -/
def compile : (fuel : Nat) → (staticTexts : List Text) → (negativeExpression : Bool) → Text → JSONEval × List Text
  | 0, staticTexts, negativeExpression, _ => (.mk none negativeExpression [] [] "" false, staticTexts)
  | fuel + 1, staticTexts, negativeExpression, expr =>
    let failed := fun lastError => JSONEval.mk none negativeExpression [] [] lastError false
    let expr := trim expr
    let (staticTexts, expr) := precompileStaticTexts expr.length staticTexts expr
    if quotation ∈ expr then (failed "bad quoting in text", staticTexts)
    else if newline ∈ expr then (failed "Mutiline expression not supported", staticTexts)
    else if subExprWord <:+: expr then (failed "Invalid keyword _SUBEXPR_", staticTexts)
    else
      let expr := compressSpaces expr.length expr
      match detectLoop (compile fuel) ((expr.length + 1) * (expr.length + 1)) 0 expr staticTexts [] with
      | (false, _, staticTexts, subExpressions) =>
        (.mk none negativeExpression [] subExpressions "bad parenthesis balancing" false, staticTexts)
      | (true, expr, staticTexts, subExpressions) =>
        (compileMembers staticTexts negativeExpression subExpressions expr, staticTexts)

/-- A new object for a text, with the static texts it has come to own. -/
def new (expr : Text) : JSONEval × List Text := compile (expr.count '(' + 1) [] false expr

def getIsCompiled : JSONEval → Bool
  | mk _ _ _ _ _ isCompiled => isCompiled

/-! ## Evaluation -/

/-- With short circuit; none where a value is not determined. -/
def allOf : List (Option Bool) → Option Bool
  | [] => some true
  | none :: _ => none
  | some false :: _ => some false
  | some true :: rest => allOf rest

def anyOf : List (Option Bool) → Option Bool
  | [] => some false
  | none :: _ => none
  | some true :: _ => some true
  | some false :: rest => anyOf rest

section
variable {Json : Type} (libraries : Libraries Json) (staticTexts : List Text) (values : Json)

def evaluateAtom (subValues : List (Option Bool)) : AtomExpression → Option Bool
  | .atomic expression => some (expression.evaluate libraries staticTexts values)
  | .subExpression pos => subValues.getD pos none

mutual

def evaluate : JSONEval → Option Bool
  | mk evalMode negativeExpression atomExpressions subExpressions _ _ =>
    let atoms := atomExpressions.map (evaluateAtom libraries staticTexts values (evaluateAll subExpressions))
    match evalMode with
    | none => none
    | some .evalModeAnd => (allOf atoms).map (AtomicExpression.calcNegative negativeExpression)
    | some .evalModeOr => (anyOf atoms).map (AtomicExpression.calcNegative negativeExpression)
    | some .evalModeUndefined => some false

def evaluateAll : List JSONEval → List (Option Bool)
  | [] => []
  | sub :: rest => evaluate sub :: evaluateAll rest

end

end

end JSONEval

end Mantids.Scripts.Expressions
