import Mantids.Scripts.JSONEval

/-! What a successful compilation says about the groups of an expression: each is compiled by itself, and nothing asks
how it went. -/

set_option autoImplicit false

namespace Mantids.Scripts.Expressions

open Library

namespace JSONEval

def getEvalMode : JSONEval → Option EEvalMode
  | mk evalMode _ _ _ _ _ => evalMode

def getSubExpressions : JSONEval → List JSONEval
  | mk _ _ _ subExpressions _ _ => subExpressions

mutual

/-- The sub expressions at every depth. -/
def nested : JSONEval → List JSONEval
  | mk _ _ _ subExpressions _ _ => nestedAll subExpressions

def nestedAll : List JSONEval → List JSONEval
  | [] => []
  | sub :: rest => sub :: (nested sub ++ nestedAll rest)

end

/-- With a mode that `evaluate` knows. -/
structure Compiled (expression : JSONEval) : Prop where
  success : expression.getIsCompiled = true
  mode : expression.getEvalMode = some .evalModeAnd ∨ expression.getEvalMode = some .evalModeOr

/-- A success speaks for every part. -/
def WhollyCompiled (expression : JSONEval) : Prop :=
  expression.getIsCompiled = true → ∀ sub ∈ expression.nested, sub.Compiled

end JSONEval

open JSONEval

/-! ## The texts of the groups -/

/-- The loop over `detectSubExpr` without the compilation of what it finds. -/
def takeOutAll : (turns sePos pos : Nat) → Text → Bool × Text × List Detected
  | 0, _, _, expr => (false, expr, [])
  | turns + 1, sePos, pos, expr =>
    match detectSubExpr expr sePos pos with
    | (_, some found) =>
      let (balanced, rest, groups) := takeOutAll turns 0 (pos + 1) found.expr
      (balanced, rest, found :: groups)
    | (sePos, none) =>
      if sePos = expr.length then (true, expr, [])
      else if sePos = expr.length + 1 then (false, expr, [])
      else takeOutAll turns sePos pos expr

/-- Whether the parentheses of a text are balanced, the text with words for its groups, and the groups. -/
def ungrouped (expr : Text) : Bool × Text × List Detected :=
  takeOutAll ((expr.length + 1) * (expr.length + 1)) 0 0 expr

def compressed (expr : Text) : Text := compressSpaces expr.length expr

/-- The text with line breaks for its connective. -/
def separated (expr : Text) : Text := replaceAll (if andWord <:+: expr then andWord else orWord) [newline] expr

/-- A member is a comparison, or the word of a group. -/
def Member (staticTexts : List Text) (groups : Nat) (member : Text) : Prop :=
  if subExprWord <+: member then strtoul (member.drop 9) < groups
  else AtomicExpression.compile staticTexts member ≠ none

/-- What an expression checks of its own text, whose static texts are taken out. -/
structure Passes (staticTexts : List Text) (expr : Text) : Prop where
  quoting : quotation ∉ expr
  line : newline ∉ expr
  keyword : ¬subExprWord <:+: expr
  balanced : (ungrouped (compressed expr)).1 = true
  connective : ¬(andWord <:+: (ungrouped (compressed expr)).2.1 ∧ orWord <:+: (ungrouped (compressed expr)).2.1)
  operators : ' ' ∉ separated (ungrouped (compressed expr)).2.1
  members : ∀ member ∈ (separated (ungrouped (compressed expr)).2.1).splitOn newline,
    Member staticTexts (ungrouped (compressed expr)).2.2.length member

def groups (expr : Text) : List Detected := (ungrouped (compressed expr)).2.2

/-- The text of a group passes, and so do those of its groups, at every depth. -/
inductive Sound (staticTexts : List Text) : Text → Prop where
  | mk (expr : Text) (passes : Passes staticTexts (trim expr))
      (inner : ∀ group ∈ groups (trim expr), Sound staticTexts group.subexpr) : Sound staticTexts expr

/-! ## Characters that are not put in -/

theorem trim_sublist (text : Text) : List.Sublist (trim text) text := by
  have front := (List.dropWhile_suffix (l := text) isSpace).sublist
  have back := (List.dropWhile_suffix (l := (text.dropWhile isSpace).reverse) isSpace).sublist.reverse
  rw [List.reverse_reverse] at back
  exact back.trans front

theorem not_mem_of_count_le {c : Char} {text other : Text} (less : other.count c ≤ text.count c) (absent : c ∉ text) :
    c ∉ other := by
  rw [← List.count_eq_zero] at absent ⊢
  omega

theorem count_compressed_le {c : Char} (plain : c ≠ ' ') (expr : Text) :
    (compressed expr).count c ≤ expr.count c := by
  have turns (count : Nat) (expr : Text) : (compressSpaces count expr).count c ≤ expr.count c := by
    induction count generalizing expr with
    | zero => exact Nat.le_refl _
    | succ count ih =>
      rw [compressSpaces]
      split
      case isTrue =>
        exact (ih _).trans (count_replaceAll_le (by simpa only [List.mem_singleton] using plain) expr)
      case isFalse => exact Nat.le_refl _
  exact turns _ expr

theorem precompileStaticTexts_plain {expr : Text} (plain : quotation ∉ expr) (turns : Nat) (staticTexts : List Text) :
    precompileStaticTexts turns staticTexts expr = (staticTexts, expr) := by
  cases turns with
  | zero => rfl
  | succ turns =>
    have none_ : searchStaticText expr = none := by
      have all : expr.dropWhile (· ≠ quotation) = [] := by
        rw [List.dropWhile_eq_nil_iff]
        intro c member
        simpa using fun same : c = quotation => plain (same ▸ member)
      simp only [searchStaticText, all]
    simp only [precompileStaticTexts, none_]

theorem mem_message {word : Text} {pos : Nat} {c : Char} (member : c ∈ word ++ Nat.toDigits 10 pos) :
    c ∈ word ∨ c.isDigit := by
  rcases List.mem_append.mp member with inWord | digit
  · exact .inl inWord
  · exact .inr (Nat.isDigit_of_mem_toDigits (by decide) (by decide) digit)

theorem not_mem_message {c : Char} {word : Text} (pos : Nat) (undigit : c.isDigit = false) (unnamed : c ∉ word) :
    c ∉ word ++ Nat.toDigits 10 pos := by
  intro member
  obtain inWord | digit := mem_message member
  · exact unnamed inWord
  · rw [undigit] at digit
    cases digit

theorem count_precompileStaticTexts_le {c : Char} (undigit : c.isDigit = false) (unnamed : c ∉ staticWord)
    (turns : Nat) :
    ∀ staticTexts expr, (precompileStaticTexts turns staticTexts expr).2.count c ≤ expr.count c := by
  induction turns with
  | zero => exact fun _ _ => Nat.le_refl _
  | succ turns ih =>
    intro staticTexts expr
    rw [precompileStaticTexts]
    split
    case h_1 => exact Nat.le_refl _
    case h_2 text found => exact (ih _ _).trans (count_replaceAll_le (not_mem_message _ undigit unnamed) expr)

/-! ## What the detection finds -/

/-- A closed scan has passed an opening parenthesis, unless it began behind one. -/
theorem scan_closed (text : Text) : ∀ {i level start firstByte last : Nat},
    scan text i level start = .closed firstByte last →
      (level = 0 → ∃ front inner back, text = front ++ ('(' :: (inner ++ ')' :: back)) ∧
        firstByte = i + front.length ∧ last = firstByte + 1 + inner.length) ∧
      (0 < level → ∃ inner back, text = inner ++ ')' :: back ∧ firstByte = start ∧ last = i + inner.length) := by
  induction text with
  | nil =>
    intro i level start firstByte last closed
    cases closed
  | cons c rest ih =>
    intro i level start firstByte last closed
    rw [scan] at closed
    by_cases opens : c = '('
    · rw [if_pos opens] at closed
      obtain ⟨inner, back, same, first, length⟩ := (ih closed).2 (Nat.succ_pos level)
      constructor
      · intro outside
        rw [if_pos outside] at first
        exact ⟨[], inner, back, by rw [opens, same, List.nil_append], by rw [first]; rfl, by omega⟩
      · intro inside
        rw [if_neg (by omega)] at first
        exact ⟨c :: inner, back, by rw [same, List.cons_append], first, by rw [length, List.length_cons]; omega⟩
    rw [if_neg opens] at closed
    by_cases closes : c = ')'
    · rw [if_pos closes] at closed
      by_cases outside : level = 0
      · rw [if_pos outside] at closed
        cases closed
      rw [if_neg outside] at closed
      refine ⟨fun none => absurd none outside, fun inside => ?_⟩
      by_cases one : level = 1
      · rw [if_pos one] at closed
        cases closed
        exact ⟨[], rest, by rw [closes, List.nil_append], rfl, rfl⟩
      · rw [if_neg one] at closed
        obtain ⟨inner, back, same, first, length⟩ := (ih closed).2 (by omega)
        exact ⟨c :: inner, back, by rw [same, List.cons_append], first, by rw [length, List.length_cons]; omega⟩
    · rw [if_neg closes] at closed
      constructor
      · intro outside
        obtain ⟨front, inner, back, same, first, length⟩ := (ih closed).1 outside
        refine ⟨c :: front, inner, back, by rw [same, List.cons_append], ?_, length⟩
        rw [first, List.length_cons]
        omega
      · intro inside
        obtain ⟨inner, back, same, first, length⟩ := (ih closed).2 inside
        exact ⟨c :: inner, back, by rw [same, List.cons_append], first, by rw [length, List.length_cons]; omega⟩

def parenthesized (subexpr : Text) : Text := '(' :: (subexpr ++ [')'])

/-- What stands in front of a parenthesis. -/
def charBefore (expr : Text) (firstByte : Nat) : Option Char := if 0 < firstByte then expr[firstByte - 1]? else none

/-- The text of a group, and the text around it. -/
theorem takeOut_parts (front inner back : Text) (pos : Nat) :
    takeOut (front ++ (parenthesized inner ++ back)) pos front.length (front.length + 1 + inner.length) =
      if (charBefore (front ++ (parenthesized inner ++ back)) front.length).any Char.isAlphanum then
        (front.length + 1 + inner.length + 1, none)
      else if charBefore (front ++ (parenthesized inner ++ back)) front.length = some '!' then
        (0, some ⟨inner, true, replaceFirst ('!' :: parenthesized inner) (subExprMessage pos)
          (front ++ (parenthesized inner ++ back))⟩)
      else (0, some ⟨inner, false, replaceFirst (parenthesized inner) (subExprMessage pos)
        (front ++ (parenthesized inner ++ back))⟩) := by
  have subexpr : ((front ++ (parenthesized inner ++ back)).drop (front.length + 1)).take
      (front.length + 1 + inner.length - front.length - 1) = inner := by
    have count : front.length + 1 + inner.length - front.length - 1 = inner.length := by omega
    rw [count, List.drop_length_add_append, parenthesized, List.cons_append, List.drop_succ_cons, List.drop_zero,
      List.append_assoc, List.take_left]
  unfold takeOut
  simp only [subexpr]
  rfl

/-- A scan that closes splits the text around the parentheses of a first level. -/
theorem parts_of_closed {expr : Text} {start firstByte last : Nat}
    (closed : scan (expr.drop start) start 0 0 = .closed firstByte last) :
    ∃ front inner back, expr = expr.take start ++ front ++ (parenthesized inner ++ back) ∧
      expr.drop start = front ++ (parenthesized inner ++ back) ∧
      firstByte = (expr.take start ++ front).length ∧ last = firstByte + 1 + inner.length := by
  obtain ⟨front, inner, back, same, first, length⟩ := (scan_closed _ closed).1 rfl
  have rest : expr.drop start = front ++ (parenthesized inner ++ back) := by
    rw [same, parenthesized, List.cons_append, List.append_assoc, List.singleton_append]
  have before : start ≤ expr.length := by
    by_contra behind
    rw [List.drop_eq_nil_of_le (by omega)] at rest
    simp [parenthesized] at rest
  refine ⟨front, inner, back, ?_, rest, ?_, length⟩
  · rw [List.append_assoc, ← rest, List.take_append_drop]
  · rw [List.length_append, List.length_take, Nat.min_eq_left before, first]

theorem ends_in_mark {front rest : Text}
    (mark : charBefore (front ++ rest) front.length = some '!') : ∃ before, front = before ++ ['!'] := by
  unfold charBefore at mark
  split at mark
  case isTrue some =>
    rw [List.getElem?_append_left (by omega), ← List.getLast?_eq_getElem?] at mark
    exact ⟨front.dropLast, (List.dropLast_append_getLast? _ mark).symm⟩
  case isFalse => cases mark

/-- A group that is found stands in the text, and a word comes for it. -/
theorem detectSubExpr_found {expr : Text} {start pos next : Nat} {found : Detected}
    (detected : detectSubExpr expr start pos = (next, some found)) :
    ∃ pattern, pattern <:+: expr ∧ parenthesized found.subexpr <:+ pattern ∧
      found.expr = replaceFirst pattern (subExprMessage pos) expr := by
  unfold detectSubExpr at detected
  split at detected
  case h_1 => cases detected
  case h_2 => cases detected
  case h_3 firstByte last closed =>
    obtain ⟨front, inner, back, whole, -, first, length⟩ := parts_of_closed closed
    generalize expr.take start ++ front = before at whole first
    subst first length
    rw [whole, takeOut_parts] at detected
    split_ifs at detected with function mark
    · cases detected
    · obtain ⟨earlier, ends⟩ := ends_in_mark mark
      cases detected
      refine ⟨'!' :: parenthesized inner, ⟨earlier, back, ?_⟩, List.suffix_cons _ _, by rw [whole]⟩
      rw [whole, ends]
      simp only [List.append_assoc, List.cons_append, List.nil_append]
    · cases detected
      exact ⟨parenthesized inner, ⟨before, back, by rw [whole, List.append_assoc]⟩, List.suffix_refl _, by rw [whole]⟩

/-- A group has a parenthesis less than its text, and nothing of it but its words is new. -/
structure Smaller (expr : Text) (found : Detected) : Prop where
  group : found.subexpr.count '(' < expr.count '('
  rest : found.expr.count '(' < expr.count '('
  groupPlain : quotation ∉ expr → quotation ∉ found.subexpr
  restPlain : quotation ∉ expr → quotation ∉ found.expr

theorem smaller_of_detected {expr : Text} {start pos next : Nat} {found : Detected}
    (detected : detectSubExpr expr start pos = (next, some found)) : Smaller expr found := by
  obtain ⟨pattern, occurs, inside, replaced⟩ := detectSubExpr_found detected
  have some : pattern ≠ [] := by
    intro none
    rw [none, List.suffix_nil] at inside
    cases inside
  have counted (c : Char) := @count_replaceFirst Char _ pattern (subExprMessage pos) expr occurs some c
  have within (c : Char) : (parenthesized found.subexpr).count c ≤ pattern.count c := inside.sublist.count_le c
  have whole (c : Char) : pattern.count c ≤ expr.count c := occurs.sublist.count_le c
  have opening : (subExprMessage pos).count '(' = 0 := by
    rw [List.count_eq_zero]
    exact not_mem_message pos rfl (by decide)
  have mark : (subExprMessage pos).count quotation = 0 := by
    rw [List.count_eq_zero]
    exact not_mem_message pos rfl (by decide)
  have more : found.subexpr.count '(' + 1 ≤ (parenthesized found.subexpr).count '(' := by
    rw [parenthesized, List.count_cons_self, List.count_append]
    omega
  have kept : found.subexpr.count quotation ≤ (parenthesized found.subexpr).count quotation := by
    exact (List.infix_append ['('] found.subexpr [')']).sublist.count_le quotation
  have open_ := counted '('
  have quoted := counted quotation
  have withinOpen := within '('
  have withinQuoted := within quotation
  have wholeOpen := whole '('
  have wholeQuoted := whole quotation
  rw [← replaced] at open_ quoted
  exact
    { group := by omega
      rest := by omega
      groupPlain := not_mem_of_count_le (by omega)
      restPlain := not_mem_of_count_le (by omega) }

/-! ## The loop over the groups -/

theorem smaller_takeOutAll (turns : Nat) : ∀ (sePos pos : Nat) (expr : Text),
    ∀ group ∈ (takeOutAll turns sePos pos expr).2.2,
      group.subexpr.count '(' < expr.count '(' ∧ (quotation ∉ expr → quotation ∉ group.subexpr) := by
  induction turns with
  | zero =>
    intro sePos pos expr group member
    cases member
  | succ turns ih =>
    intro sePos pos expr group member
    rw [takeOutAll] at member
    split at member
    case h_1 next found detected =>
      have smaller := smaller_of_detected detected
      obtain rfl | later := List.mem_cons.mp member
      · exact ⟨smaller.group, smaller.groupPlain⟩
      · obtain ⟨fewer, plain⟩ := ih 0 (pos + 1) found.expr group later
        exact ⟨fewer.trans smaller.rest, fun unquoted => plain (smaller.restPlain unquoted)⟩
    case h_2 next detected =>
      split_ifs at member
      · cases member
      · cases member
      · exact ih next pos expr group member

section
variable {compileSub : List Text → Bool → Text → JSONEval × List Text} {staticTexts : List Text}

/-- The loop compiles what it finds, and goes on without a look at how that went. -/
theorem detectLoop_eq
    (keeps : ∀ negative text, quotation ∉ text → (compileSub staticTexts negative text).2 = staticTexts)
    (turns : Nat) : ∀ (sePos : Nat) (expr : Text) (subs : List JSONEval), quotation ∉ expr →
    detectLoop compileSub turns sePos expr staticTexts subs =
      ((takeOutAll turns sePos subs.length expr).1, (takeOutAll turns sePos subs.length expr).2.1, staticTexts,
        subs ++ (takeOutAll turns sePos subs.length expr).2.2.map
          fun group => (compileSub staticTexts group.negative group.subexpr).1) := by
  induction turns with
  | zero =>
    intro sePos expr subs plain
    simp only [detectLoop, takeOutAll, List.map_nil, List.append_nil]
  | succ turns ih =>
    intro sePos expr subs plain
    rw [detectLoop, takeOutAll]
    cases detected : detectSubExpr expr sePos subs.length with
    | mk next found =>
      cases found with
      | some found =>
        have smaller := smaller_of_detected detected
        have kept := keeps found.negative found.subexpr (smaller.groupPlain plain)
        dsimp only
        rw [kept, ih 0 found.expr _ (smaller.restPlain plain), List.length_append, List.length_singleton,
          List.map_cons, List.append_assoc, List.singleton_append]
      | none =>
        dsimp only
        split_ifs
        · simp only [List.map_nil, List.append_nil]
        · simp only [List.map_nil, List.append_nil]
        · exact ih next expr subs plain

end

/-! ## One expression -/

theorem mem_nestedAll {subs : List JSONEval} {part : JSONEval} :
    part ∈ nestedAll subs ↔ ∃ sub ∈ subs, part = sub ∨ part ∈ sub.nested := by
  induction subs with
  | nil => simp only [nestedAll, List.not_mem_nil, false_and, exists_false]
  | cons sub rest ih => simp only [nestedAll, List.mem_cons, List.mem_append, ih, exists_eq_or_imp, or_assoc]

theorem nested_eq (expression : JSONEval) : expression.nested = nestedAll expression.getSubExpressions := by
  cases expression with
  | mk => rw [nested, getSubExpressions]

theorem compileAtom_ok_iff {staticTexts : List Text} {count : Nat} {member : Text} :
    (∃ atom, compileAtom staticTexts count member = .ok atom) ↔ Member staticTexts count member := by
  unfold compileAtom Member
  split
  case isTrue => split_ifs with outside <;> simp <;> omega
  case isFalse =>
    cases AtomicExpression.compile staticTexts member with
    | none => simp
    | some expression => simp

theorem compileAtoms_none_iff {staticTexts : List Text} {count : Nat} (members : List Text) :
    (compileAtoms staticTexts count members).2 = none ↔ ∀ member ∈ members, Member staticTexts count member := by
  induction members with
  | nil => simp only [compileAtoms, List.not_mem_nil, false_imp_iff, implies_true]
  | cons member rest ih =>
    rw [compileAtoms, List.forall_mem_cons, ← ih, ← compileAtom_ok_iff]
    cases compileAtom staticTexts count member with
    | error error => simp
    | ok atom => simp

section
variable {staticTexts : List Text} {negative : Bool} {subs : List JSONEval} {expr : Text}

theorem compileMembers_success :
    (compileMembers staticTexts negative subs expr).getIsCompiled = true ↔
      ¬(andWord <:+: expr ∧ orWord <:+: expr) ∧ ' ' ∉ separated expr ∧
        ∀ member ∈ (separated expr).splitOn newline, Member staticTexts subs.length member := by
  rw [← compileAtoms_none_iff]
  by_cases both : andWord <:+: expr ∧ orWord <:+: expr
  · simp [compileMembers, getIsCompiled, both]
  unfold separated
  generalize text : replaceAll (if andWord <:+: expr then andWord else orWord) [newline] expr = separated
  by_cases blank : ' ' ∈ separated
  · simp [compileMembers, if_neg both, text, getIsCompiled, blank]
  simp only [compileMembers, if_neg both, text, if_neg blank]
  cases compileAtoms staticTexts subs.length (separated.splitOn newline) with
  | mk atoms error =>
    cases error with
    | none => simp only [getIsCompiled, both, blank, not_false_iff, true_and]
    | some error => cases error <;> simp [getIsCompiled]

theorem compileMembers_mode (success : (compileMembers staticTexts negative subs expr).getIsCompiled = true) :
    (compileMembers staticTexts negative subs expr).getEvalMode = some .evalModeAnd ∨
      (compileMembers staticTexts negative subs expr).getEvalMode = some .evalModeOr := by
  revert success
  unfold compileMembers
  dsimp only
  split_ifs
  · simp [getIsCompiled]
  · simp [getIsCompiled]
  · split <;> simp [getIsCompiled, getEvalMode]
  · simp [getIsCompiled]
  · split <;> simp [getIsCompiled, getEvalMode]

theorem compileMembers_subs : (compileMembers staticTexts negative subs expr).getSubExpressions = subs := by
  unfold compileMembers
  dsimp only
  split_ifs
  · rfl
  · rfl
  · split <;> rfl
  · rfl
  · split <;> rfl

end

/-- What is done with a text whose static texts are taken out. -/
def compileText (fuel : Nat) (staticTexts : List Text) (negative : Bool) (expr : Text) : JSONEval × List Text :=
  let failed := fun lastError => JSONEval.mk none negative [] [] lastError false
  if quotation ∈ expr then (failed "bad quoting in text", staticTexts)
  else if newline ∈ expr then (failed "Mutiline expression not supported", staticTexts)
  else if subExprWord <:+: expr then (failed "Invalid keyword _SUBEXPR_", staticTexts)
  else
    match detectLoop (compile fuel) (((compressed expr).length + 1) * ((compressed expr).length + 1)) 0
        (compressed expr) staticTexts [] with
    | (false, _, staticTexts, subExpressions) =>
      (.mk none negative [] subExpressions "bad parenthesis balancing" false, staticTexts)
    | (true, expr, staticTexts, subExpressions) =>
      (compileMembers staticTexts negative subExpressions expr, staticTexts)

theorem compile_eq (fuel : Nat) (staticTexts : List Text) (negative : Bool) (expr : Text) :
    compile (fuel + 1) staticTexts negative expr =
      compileText fuel (precompileStaticTexts (trim expr).length staticTexts (trim expr)).1 negative
        (precompileStaticTexts (trim expr).length staticTexts (trim expr)).2 := rfl

/-- What comes of a text. -/
structure Result (fuel : Nat) (staticTexts : List Text) (expr : Text) (result : JSONEval × List Text) : Prop where
  texts : result.2 = staticTexts
  success : result.1.getIsCompiled = true ↔ Passes staticTexts expr
  mode : result.1.getIsCompiled = true →
    result.1.getEvalMode = some .evalModeAnd ∨ result.1.getEvalMode = some .evalModeOr
  subs : result.1.getIsCompiled = true → result.1.getSubExpressions =
    (groups expr).map fun group => (compile fuel staticTexts group.negative group.subexpr).1

section
variable {fuel : Nat} {staticTexts : List Text}

theorem result_of_failure {expr : Text} {result : JSONEval × List Text} (texts : result.2 = staticTexts)
    (failure : result.1.getIsCompiled = false) (wrong : ¬Passes staticTexts expr) :
    Result fuel staticTexts expr result := by
  have impossible : result.1.getIsCompiled = true → False := by
    rw [failure]
    exact Bool.noConfusion
  exact
    { texts
      success := ⟨fun success => (impossible success).elim, fun passes => absurd passes wrong⟩
      mode := fun success => (impossible success).elim
      subs := fun success => (impossible success).elim }

theorem result_compileText
    (keeps : ∀ negative text, quotation ∉ text → (compile fuel staticTexts negative text).2 = staticTexts)
    (negative : Bool) (expr : Text) : Result fuel staticTexts expr (compileText fuel staticTexts negative expr) := by
  unfold compileText
  dsimp only
  split_ifs with quoted broken keyword
  · exact result_of_failure rfl rfl fun passes => passes.quoting quoted
  · exact result_of_failure rfl rfl fun passes => passes.line broken
  · exact result_of_failure rfl rfl fun passes => passes.keyword keyword
  have plain : quotation ∉ compressed expr := not_mem_of_count_le (count_compressed_le (by decide) expr) quoted
  rw [detectLoop_eq keeps _ 0 (compressed expr) [] plain]
  rw [List.length_nil, ← ungrouped, List.nil_append]
  cases balanced : (ungrouped (compressed expr)).1 with
  | false =>
    refine result_of_failure rfl rfl fun passes => ?_
    rw [passes.balanced] at balanced
    cases balanced
  | true =>
    dsimp only
    refine ⟨rfl, ?_, compileMembers_mode, fun _ => compileMembers_subs⟩
    rw [compileMembers_success, List.length_map]
    constructor
    · intro checks
      exact ⟨quoted, broken, keyword, balanced, checks.1, checks.2.1, checks.2.2⟩
    · intro passes
      exact ⟨passes.connective, passes.operators, passes.members⟩

theorem compile_plain {expr : Text} (plain : quotation ∉ expr) (negative : Bool) :
    compile (fuel + 1) staticTexts negative expr = compileText fuel staticTexts negative (trim expr) := by
  have trimmed : quotation ∉ trim expr := fun member => plain ((trim_sublist expr).subset member)
  rw [compile_eq, precompileStaticTexts_plain trimmed]

/-- A group has no static text of its own any more. -/
theorem compile_keeps (fuel : Nat) (staticTexts : List Text) : ∀ negative text, quotation ∉ text →
    (compile fuel staticTexts negative text).2 = staticTexts := by
  induction fuel with
  | zero => exact fun _ _ _ => rfl
  | succ fuel ih =>
    intro negative text plain
    rw [compile_plain plain]
    exact (result_compileText ih negative (trim text)).texts

theorem forall_nested_iff {property : JSONEval → Prop} {expr : Text} {expression : JSONEval}
    (subs : expression.getSubExpressions =
      (groups expr).map fun group => (compile fuel staticTexts group.negative group.subexpr).1) :
    (∀ part ∈ expression.nested, property part) ↔ ∀ group ∈ groups expr,
      property (compile fuel staticTexts group.negative group.subexpr).1 ∧
        ∀ part ∈ (compile fuel staticTexts group.negative group.subexpr).1.nested, property part := by
  rw [nested_eq, subs]
  constructor
  · intro all group member
    have mem := List.mem_map_of_mem (f := fun group : Detected =>
      (compile fuel staticTexts group.negative group.subexpr).1) member
    exact ⟨all _ (mem_nestedAll.mpr ⟨_, mem, .inl rfl⟩),
      fun part inside => all part (mem_nestedAll.mpr ⟨_, mem, .inr inside⟩)⟩
  · intro all part inside
    obtain ⟨sub, mem, here⟩ := mem_nestedAll.mp inside
    obtain ⟨group, member, rfl⟩ := List.mem_map.mp mem
    obtain rfl | deeper := here
    · exact (all group member).1
    · exact (all group member).2 part deeper

theorem smaller_groups {expr : Text} {group : Detected} (member : group ∈ groups expr) :
    group.subexpr.count '(' < expr.count '(' ∧ (quotation ∉ expr → quotation ∉ group.subexpr) := by
  obtain ⟨fewer, plain⟩ := smaller_takeOutAll _ _ _ _ group member
  exact ⟨Nat.lt_of_lt_of_le fewer (count_compressed_le (by decide) expr),
    fun unquoted => plain (not_mem_of_count_le (count_compressed_le (by decide) expr) unquoted)⟩

/-- A group and all its parts are compiled exactly if its text is sound; there is fuel for its parentheses. -/
theorem sound_iff (fuel : Nat) : ∀ (negative : Bool) (expr : Text), quotation ∉ expr → expr.count '(' < fuel →
    ((compile fuel staticTexts negative expr).1.Compiled ∧
      (∀ part ∈ (compile fuel staticTexts negative expr).1.nested, part.Compiled) ↔ Sound staticTexts expr) := by
  induction fuel with
  | zero => exact fun _ _ _ enough => absurd enough (Nat.not_lt_zero _)
  | succ fuel ih =>
    intro negative expr plain enough
    have trimmed := (trim_sublist expr).count_le '('
    have trimmedPlain : quotation ∉ trim expr := fun member => plain ((trim_sublist expr).subset member)
    have result := result_compileText (compile_keeps fuel staticTexts) negative (trim expr)
    rw [compile_plain plain]
    constructor
    · intro all
      have success := all.1.success
      refine .mk expr (result.success.mp success) fun group member => ?_
      obtain ⟨fewer, kept⟩ := smaller_groups member
      exact (ih group.negative group.subexpr (kept trimmedPlain) (by omega)).mp
        ((forall_nested_iff (result.subs success)).mp all.2 group member)
    · intro sound
      cases sound with
      | mk _ passes inner =>
        have success := result.success.mpr passes
        refine ⟨⟨success, result.mode success⟩, (forall_nested_iff (result.subs success)).mpr fun group member => ?_⟩
        obtain ⟨fewer, kept⟩ := smaller_groups member
        exact (ih group.negative group.subexpr (kept trimmedPlain) (by omega)).mpr (inner group member)

end

/-- The static texts of a text, and what is left of it. -/
def prepared (expr : Text) : List Text × Text := precompileStaticTexts (trim expr).length [] (trim expr)

/-- A success speaks for every part exactly if the text itself is rejected, or all its groups are sound. -/
theorem whollyCompiled_iff (expr : Text) : WhollyCompiled (new expr).1 ↔
    ¬Passes (prepared expr).1 (prepared expr).2 ∨
      ∀ group ∈ groups (prepared expr).2, Sound (prepared expr).1 group.subexpr := by
  have result := result_compileText (compile_keeps (expr.count '(') (prepared expr).1) false (prepared expr).2
  have same : new expr = compileText (expr.count '(') (prepared expr).1 false (prepared expr).2 := by
    rw [new, compile_eq, prepared]
  have fewer : (prepared expr).2.count '(' ≤ expr.count '(' :=
    (count_precompileStaticTexts_le rfl (by decide) _ _ _).trans ((trim_sublist expr).count_le _)
  rw [WhollyCompiled, same, result.success]
  have inner (passes : Passes (prepared expr).1 (prepared expr).2) :
      (∀ part ∈ (compileText (expr.count '(') (prepared expr).1 false (prepared expr).2).1.nested, part.Compiled) ↔
        ∀ group ∈ groups (prepared expr).2, Sound (prepared expr).1 group.subexpr := by
    rw [forall_nested_iff (result.subs (result.success.mpr passes))]
    refine forall₂_congr fun group member => ?_
    obtain ⟨less, kept⟩ := smaller_groups member
    exact sound_iff _ group.negative group.subexpr (kept passes.quoting) (by omega)
  by_cases passes : Passes (prepared expr).1 (prepared expr).2
  · simp only [passes, true_imp_iff, not_true_eq_false, false_or, inner passes]
  · simp only [passes, false_imp_iff, not_false_iff, true_or]

/-- The group is no expression, and its text compiles. -/
theorem group_uncompiled : ¬WhollyCompiled (new "(a b)".toList).1 := by
  have success : (new "(a b)".toList).1.getIsCompiled = true := by decide +kernel
  have part : ((new "(a b)".toList).1.nested.map getIsCompiled) = [false] := by decide +kernel
  intro wholly
  have compiled := wholly success
  cases parts : (new "(a b)".toList).1.nested with
  | nil =>
    rw [parts] at part
    cases part
  | cons sub rest =>
    rw [parts, List.map_cons] at part
    have failed := (List.cons.inj part).1
    rw [(compiled sub (by rw [parts]; exact List.mem_cons_self)).success] at failed
    cases failed

end Mantids.Scripts.Expressions
