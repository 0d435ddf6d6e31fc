import Mantids.Protocols.PlaceHolders

/-! Quotation marks in the text of a value, and how `parseSubValues` takes them away. -/

set_option autoImplicit false

namespace Mantids.MIME.HeaderParameters

open Library Memory

/-! ## Quotation marks -/

def quote (text : Bytes) : Bytes := quotation :: text ++ [quotation]

theorem staticText_plain {text : Bytes} (plain : quotation ∉ text) : staticText text = none := by
  have passed : text.dropWhile (fun byte => decide (byte ≠ quotation)) = [] := by
    rw [List.dropWhile_eq_nil_iff]
    intro byte member
    exact decide_eq_true (ne_of_mem_of_not_mem member plain)
  rw [staticText, passed]

theorem quote_append (text rest : Bytes) : quote text ++ rest = quotation :: (text ++ quotation :: rest) := by
  simp [quote]

theorem staticText_quote {front text : Bytes} (before : quotation ∉ front) (inside : quotation ∉ text) (rest : Bytes) :
    staticText (front ++ (quote text ++ rest)) = some text := by
  have opens : (front ++ (quote text ++ rest)).dropWhile (fun byte => decide (byte ≠ quotation)) =
      quotation :: (text ++ quotation :: rest) := by
    rw [List.dropWhile_append_of_pos fun byte member => decide_eq_true (ne_of_mem_of_not_mem member before), quote_append]
    simp
  have closes : quotation ∈ text ++ quotation :: rest := List.mem_append_right text List.mem_cons_self
  rw [staticText, opens]
  simp only [if_pos closes]
  rw [List.takeWhile_append_of_pos fun byte member => decide_eq_true (ne_of_mem_of_not_mem member inside)]
  simp

/-- Where the loop finds no text there is at most one mark; otherwise the text is between the first two. -/
theorem staticText_cases (text : Bytes) :
    match staticText text with
    | none => text.count quotation ≤ 1
    | some between => ∃ front rest, text = front ++ (quote between ++ rest) ∧ quotation ∉ front ∧ quotation ∉ between := by
  by_cases first : quotation ∈ text
  · obtain ⟨front, behind, rfl, before⟩ := List.eq_append_cons_of_mem first
    by_cases second : quotation ∈ behind
    · obtain ⟨between, rest, rfl, inside⟩ := List.eq_append_cons_of_mem second
      rw [← quote_append, staticText_quote before inside]
      exact ⟨front, rest, rfl, before, inside⟩
    · have opens : (front ++ quotation :: behind).dropWhile (fun byte => decide (byte ≠ quotation)) =
          quotation :: behind := by
        rw [List.dropWhile_append_of_pos fun byte member => decide_eq_true (ne_of_mem_of_not_mem member before)]
        simp
      rw [staticText, opens]
      simp only [if_neg second]
      rw [List.count_append, List.count_cons_self, List.count_eq_zero.mpr before, List.count_eq_zero.mpr second]
  · rw [staticText_plain first]
    exact Nat.le_succ_of_le (List.count_eq_zero.mpr first).le

/-- A text and a mark behind it are in front of more only where the text begins with what has no mark. -/
theorem begins_behind {text front rest : Bytes} (before : quotation ∉ front) (begins : text ++ [quotation] <+: front ++ rest) :
    ∃ later, text = front ++ later ∧ later ++ [quotation] <+: rest := by
  have longer : front <+: text := by
    rcases List.prefix_or_prefix_of_prefix begins (List.prefix_append front rest) with inside | covers
    · exact absurd (inside.subset (List.mem_append_right text List.mem_cons_self)) before
    · rcases List.prefix_concat_iff.mp covers with whole | part
      · rw [whole] at before
        exact absurd (List.mem_append_right text List.mem_cons_self) before
      · exact part
  obtain ⟨later, rfl⟩ := longer
  rw [List.append_assoc, List.prefix_append_right_inj] at begins
  exact ⟨later, rfl, begins⟩

/-- A mark behind what has none is the first one. -/
theorem eq_nil_of_begins {later rest : Bytes} (plain : quotation ∉ later)
    (begins : later ++ [quotation] <+: quotation :: rest) : later = [] := by
  cases later with
  | nil => rfl
  | cons byte later =>
    have same : byte = quotation := (List.cons_prefix_cons.mp begins).1
    rw [same] at plain
    exact absurd List.mem_cons_self plain

/-- One quoted text is not in front of another. -/
theorem not_begins_quote {text other : Bytes} (plain : quotation ∉ text) (otherPlain : quotation ∉ other)
    (different : other ≠ text) (rest : Bytes) : ¬quote text <+: quotation :: (other ++ quotation :: rest) := by
  intro begins
  have further : text ++ [quotation] <+: other ++ quotation :: rest := (List.cons_prefix_cons.mp begins).2
  obtain ⟨later, rfl, behind⟩ := begins_behind otherPlain further
  rw [List.mem_append, not_or] at plain
  rw [eq_nil_of_begins plain.2 behind, List.append_nil] at different
  exact different rfl

/-- Semicolons that are not between quotation marks. -/
def outside : (inside : Bool) → Bytes → Nat
  | _, [] => 0
  | inside, byte :: rest =>
    if byte = quotation then outside (!inside) rest
    else if byte = semicolon ∧ inside = false then outside inside rest + 1
    else outside inside rest

theorem outside_plain {front : Bytes} (before : quotation ∉ front) (inside : Bool) (rest : Bytes) :
    outside inside (front ++ rest) = (if inside then 0 else front.count semicolon) + outside inside rest := by
  induction front with
  | nil => simp
  | cons byte front ih =>
    rw [List.mem_cons, not_or] at before
    rw [List.cons_append, outside, if_neg (Ne.symm before.1), ih before.2]
    cases inside with
    | true => simp
    | false =>
      by_cases here : byte = semicolon
      · simp only [here, and_self, if_true, List.count_cons_self, Bool.false_eq_true, if_false]
        omega
      · simp [here]

theorem outside_quote {text : Bytes} (plain : quotation ∉ text) (inside : Bool) (rest : Bytes) :
    outside inside (quote text ++ rest) = (if inside then text.count semicolon else 0) + outside inside rest := by
  rw [quote_append, outside, if_pos rfl, outside_plain plain, outside, if_pos rfl, Bool.not_not]
  cases inside <;> rfl

theorem outside_of_plain {text : Bytes} (plain : quotation ∉ text) : outside false text = text.count semicolon := by
  have same := outside_plain plain false []
  rwa [List.append_nil] at same

section
variable {text word : Bytes} (plain : quotation ∉ text) (wordPlain : quotation ∉ word ∧ semicolon ∉ word)
include plain wordPlain

/-- A replacement takes marks away in pairs and leaves no more semicolons outside of them. -/
theorem replaceAll_shrinks (whole : Bytes) :
    (∃ pairs, whole.count quotation = (replaceAll (quote text) word whole).count quotation + 2 * pairs) ∧
      ∀ inside, outside inside (replaceAll (quote text) word whole) ≤ outside inside whole := by
  induction length : whole.length using Nat.strong_induction_on generalizing whole with
  | _ length' ih =>
    by_cases occurrence : quote text <+: whole
    · obtain ⟨rest, rfl⟩ := occurrence
      have some : quote text ≠ [] := List.cons_ne_nil _ _
      have shorter : rest.length < length' := by
        rw [← length, List.length_append]
        exact Nat.lt_add_of_pos_left (List.length_pos_iff.mpr some)
      obtain ⟨⟨pairs, marks⟩, less⟩ := ih rest.length shorter rest rfl
      rw [replaceAll_occurrence some]
      constructor
      case left =>
        have two : (quote text).count quotation = 2 := by
          simp [quote, List.count_eq_zero.mpr plain]
        refine ⟨pairs + 1, ?_⟩
        rw [List.count_append, List.count_append, marks, two, List.count_eq_zero.mpr wordPlain.1]
        omega
      case right =>
        intro inside
        rw [outside_plain wordPlain.1, List.count_eq_zero.mpr wordPlain.2, ite_self, outside_quote plain]
        have later := less inside
        omega
    · cases whole with
      | nil => exact ⟨⟨0, rfl⟩, fun inside => Nat.le_refl _⟩
      | cons byte rest =>
        obtain ⟨⟨pairs, marks⟩, less⟩ := ih rest.length (by rw [← length]; exact Nat.lt_succ_self _) rest rfl
        rw [replaceAll_other occurrence]
        constructor
        case left =>
          refine ⟨pairs, ?_⟩
          rw [List.count_cons, List.count_cons, marks]
          omega
        case right =>
          intro inside
          rw [outside, outside]
          split
          · exact less _
          split
          · exact Nat.succ_le_succ (less _)
          · exact less _

end

/-! ## The loop over them -/

section
variable {secureReplace : RandomString}

theorem staticText_front {front : Bytes} (plain : quotation ∉ front) (body : Bytes) :
    staticText (front ++ body) = staticText body := by
  rw [staticText, staticText,
    List.dropWhile_append_of_pos fun byte member => decide_eq_true (ne_of_mem_of_not_mem member plain)]

/-- Each turn takes a pair of marks away. -/
theorem count_replaceAll {body between word : Bytes} (found : staticText body = some between)
    (wordPlain : quotation ∉ word ∧ semicolon ∉ word) :
    quotation ∉ between ∧
      ∃ pairs, body.count quotation = (replaceAll (quote between) word body).count quotation + 2 * (pairs + 1) := by
  have shape := staticText_cases body
  rw [found] at shape
  obtain ⟨front, rest, rfl, before, plain⟩ := shape
  have filled : quote between ≠ [] := List.cons_ne_nil _ _
  have passes : replaceAll (quote between) word (front ++ (quote between ++ rest)) =
      front ++ replaceAll (quote between) word (quote between ++ rest) := replaceAll_pass before _
  obtain ⟨⟨pairs, marks⟩, -⟩ := replaceAll_shrinks plain wordPlain rest
  have two : (quote between).count quotation = 2 := by simp [quote, List.count_eq_zero.mpr plain]
  refine ⟨plain, pairs, ?_⟩
  rw [passes, replaceAll_occurrence filled, List.count_append, List.count_append, List.count_append, List.count_append,
    two, marks, List.count_eq_zero.mpr wordPlain.1]
  omega

/-- Whatever it replaces, the loop leaves no mark and no more semicolons than were outside of them. -/
theorem takeOut_bounded {turns : Nat} {front : Bytes} (plain : quotation ∉ front) {body : Bytes}
    (even : Even (body.count quotation)) (enough : body.count quotation ≤ 2 * turns) (vStaticTexts : List Bytes) :
    ∃ left, (takeOut secureReplace turns vStaticTexts (front ++ body)).2 = front ++ left ∧ quotation ∉ left ∧
      left.count semicolon ≤ outside false body := by
  -- an even number of marks that is at most one is none
  have stays : ∀ body : Bytes, Even (body.count quotation) → body.count quotation ≤ 1 →
      quotation ∉ body ∧ body.count semicolon ≤ outside false body := by
    intro body even few
    have none : quotation ∉ body := List.count_eq_zero.mp (by grind)
    exact ⟨none, (outside_of_plain none).ge⟩
  induction turns generalizing body vStaticTexts with
  | zero => exact ⟨body, rfl, stays body even (by omega)⟩
  | succ turns ih =>
    rw [takeOut, staticText_front plain]
    cases found : staticText body with
    | none =>
      have few := staticText_cases body
      rw [found] at few
      exact ⟨body, rfl, stays body even few⟩
    | some between =>
      have word := plain_staticMessage secureReplace vStaticTexts.length
      obtain ⟨inside, pairs, marks⟩ := count_replaceAll found word
      have passes : replaceAll (quote between) (staticMessage secureReplace vStaticTexts.length) (front ++ body) =
          front ++ replaceAll (quote between) (staticMessage secureReplace vStaticTexts.length) body :=
        replaceAll_pass plain body
      simp only
      rw [← quote, passes]
      have evenLater : Even ((replaceAll (quote between) (staticMessage secureReplace vStaticTexts.length) body).count quotation) := by
        grind
      obtain ⟨left, ends, none, few⟩ := ih evenLater (by omega) (vStaticTexts ++ [between])
      exact ⟨left, ends, none, few.trans ((replaceAll_shrinks inside word body).2 false)⟩

end

end Mantids.MIME.HeaderParameters
