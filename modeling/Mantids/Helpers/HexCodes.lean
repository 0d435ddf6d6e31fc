import Mantids.Helpers.PercentEncoding
import Mantids.Library.Occurrence

/-! Hexadecimal codes in a text (`Encoders::replaceHexCodes` of `encoders.cpp`), which is edited while it is
scanned. -/

set_option autoImplicit false

namespace Mantids.Helpers.HexCodes

open Memory Library PercentEncoding

/-- A backslash, a zero and an x. -/
def pattern : Bytes := [92, 48, 120]

/-- The value is what `strtol` makes of two digits. -/
def hexPairToByte (first second : UInt8) : UInt8 :=
  if !isxdigit first.toInt8 || !isxdigit second.toInt8 then 0
  else (hexToValue first.toInt8).toUInt8 * 16 + (hexToValue second.toInt8).toUInt8

/-- `content.find("\\0x", pos)` -/
def find (content : Bytes) (pos : Nat) : Option Nat := (occurrence pattern (content.drop pos)).map (pos + ·)

def digitAt (content : Bytes) (pos : Nat) : Bool := isxdigit (content.getD pos 0).toInt8

/-- The loop, with the turns that it may take. -/
def replaceLoop : (turns : Nat) → Bytes → (pos : Nat) → Option Bytes
  | 0, _, _ => none
  | turns + 1, content, pos =>
    match find content pos with
    | none => some content
    | some pos =>
      if pos + 4 < content.length ∧ digitAt content (pos + 3) = true ∧ digitAt content (pos + 4) = true then
        let replSrc := hexPairToByte (content.getD (pos + 3) 0) (content.getD (pos + 4) 0)
        -- the position stays where the code was
        replaceLoop turns (content.take pos ++ replSrc :: content.drop (pos + 5)) pos
      else replaceLoop turns content (pos + 3)

def replaceHexCodes (turns : Nat) (content : Bytes) : Option Bytes := replaceLoop turns content 0

/-! ## One pass -/

/-- The byte that a code at the front of a text stands for. -/
def escape : Bytes → Option UInt8
  | mark :: zero :: x :: first :: second :: _ =>
    if [mark, zero, x] = pattern ∧ isxdigit first.toInt8 = true ∧ isxdigit second.toInt8 = true then
      some (hexPairToByte first second)
    else none
  | _ => none

/-- Each code of the text as its byte, and everything else as it is. -/
def reference : Bytes → Bytes
  | mark :: zero :: x :: first :: second :: rest =>
    match escape (mark :: zero :: x :: first :: second :: rest) with
    | some byte => byte :: reference rest
    | none => mark :: reference (zero :: x :: first :: second :: rest)
  | byte :: rest => byte :: reference rest
  | [] => []

/-- A code stands directly in front of what its byte makes another code of. -/
def Nested (content : Bytes) : Prop :=
  ∃ pos byte, escape (content.drop pos) = some byte ∧ (escape (byte :: content.drop (pos + 5))).isSome = true

/-- The calls end, with what one pass gives. -/
def SinglePass (content : Bytes) : Prop := ∃ turns, replaceHexCodes turns content = some (reference content)

section
variable {text : Bytes} {byte : UInt8}

theorem escape_eq_some_iff : escape text = some byte ↔
    ∃ first second rest, text = 92 :: 48 :: 120 :: first :: second :: rest ∧ isxdigit first.toInt8 = true ∧
      isxdigit second.toInt8 = true ∧ byte = hexPairToByte first second := by
  constructor
  · intro found
    unfold escape at found
    split at found
    case h_1 mark zero x first second rest =>
      split at found
      case isTrue valid =>
        obtain ⟨front, digits⟩ := valid
        simp only [pattern, List.cons.injEq, and_true] at front
        obtain ⟨rfl, rfl, rfl⟩ := front
        cases found
        exact ⟨first, second, rest, rfl, digits.1, digits.2, rfl⟩
      case isFalse _ => cases found
    case h_2 _ => cases found
  · intro found
    obtain ⟨first, second, rest, same, high, low, value⟩ := found
    rw [same, escape, if_pos ⟨rfl, high, low⟩, value]

theorem reference_escape (found : escape text = some byte) : reference text = byte :: reference (text.drop 5) := by
  obtain ⟨first, second, rest, rfl, -, -, -⟩ := escape_eq_some_iff.mp found
  rw [reference, found]
  rfl

theorem reference_plain {rest : Bytes} (none : escape (byte :: rest) = .none) :
    reference (byte :: rest) = byte :: reference rest := by
  rcases rest with _ | ⟨zero, _ | ⟨x, _ | ⟨first, _ | ⟨second, rest⟩⟩⟩⟩
  · rfl
  · rfl
  · rfl
  · rfl
  · rw [reference, none]

/-- No code begins with another byte. -/
theorem escape_other {rest : Bytes} (other : byte ≠ 92) : escape (byte :: rest) = none := by
  rw [Option.eq_none_iff_forall_ne_some]
  intro value found
  obtain ⟨first, second, rest', same, -⟩ := escape_eq_some_iff.mp found
  exact other (List.cons.inj same).1

/-- Within a code there is none. -/
theorem escape_inside {value : UInt8} (found : escape text = some value) {pos : Nat} (positive : 0 < pos) (inside : pos < 5) :
    escape (text.drop pos) = none := by
  obtain ⟨first, second, rest, rfl, high, low, -⟩ := escape_eq_some_iff.mp found
  have digit : ∀ {digit : UInt8}, isxdigit digit.toInt8 = true → digit ≠ 92 := by
    intro digit valid same
    subst same
    cases valid
  interval_cases pos
  · exact escape_other (by decide)
  · exact escape_other (by decide)
  · exact escape_other (digit high)
  · exact escape_other (digit low)

end

/-! ## What the loop makes of a text -/

/-- The byte of a code is read again with what stands behind it. -/
inductive Rescans : Bytes → Bytes → Prop where
  | nil : Rescans [] []
  | plain {byte : UInt8} {rest result : Bytes} (none : escape (byte :: rest) = .none) (next : Rescans rest result) :
      Rescans (byte :: rest) (byte :: result)
  | again {text result : Bytes} {byte : UInt8} (found : escape text = some byte)
      (next : Rescans (byte :: text.drop 5) result) : Rescans text result

theorem exists_rescans (text : Bytes) : ∃ result, Rescans text result := by
  induction length : text.length using Nat.strong_induction_on generalizing text with
  | _ n ih =>
    cases text with
    | nil => exact ⟨[], .nil⟩
    | cons byte rest =>
      cases found : escape (byte :: rest) with
      | none =>
        rw [List.length_cons] at length
        obtain ⟨result, next⟩ := ih rest.length (by omega) rest rfl
        exact ⟨byte :: result, .plain found next⟩
      | some value =>
        obtain ⟨first, second, behind, same, -⟩ := escape_eq_some_iff.mp found
        have shorter : (value :: (byte :: rest).drop 5).length < n := by
          rw [← length, same]
          simp
        obtain ⟨result, next⟩ := ih _ shorter _ rfl
        exact ⟨result, .again found next⟩

section
variable {text result : Bytes}

/-- Where no code begins, the bytes stay. -/
theorem Rescans.skip (rescans : Rescans text result) {count : Nat} (none : ∀ i < count, escape (text.drop i) = none)
    (inside : count ≤ text.length) : ∃ later, result = text.take count ++ later ∧ Rescans (text.drop count) later := by
  induction count generalizing text result with
  | zero => exact ⟨result, rfl, rescans⟩
  | succ count ih =>
    cases rescans with
    | nil => exact absurd inside (by simp)
    | again found _ =>
      have here := none 0 (Nat.zero_lt_succ _)
      rw [List.drop_zero, found] at here
      cases here
    | @plain byte rest result' _ next =>
      have shorter : count ≤ rest.length := by
        rw [List.length_cons] at inside
        omega
      obtain ⟨later, same, behind⟩ := ih next (fun i less => none (i + 1) (by omega)) shorter
      exact ⟨later, by rw [same]; rfl, behind⟩

theorem Rescans.of_escape (rescans : Rescans text result) {byte : UInt8} (found : escape text = some byte) :
    Rescans (byte :: text.drop 5) result := by
  cases rescans with
  | nil => cases found
  | plain none _ =>
    rw [none] at found
    cases found
  | again here next =>
    rw [found] at here
    cases here
    exact next

theorem pattern_of_escape {byte : UInt8} (found : escape text = some byte) : pattern <+: text := by
  obtain ⟨first, second, rest, rfl, -⟩ := escape_eq_some_iff.mp found
  exact ⟨first :: second :: rest, rfl⟩

end

/-- Where the sign of a code does not stand, there is none. -/
theorem escape_before {text : Bytes} {n : Nat} (before : ∀ i < n, ¬pattern <+: text.drop i) :
    ∀ i < n, escape (text.drop i) = none := by
  intro i less
  rw [Option.eq_none_iff_forall_ne_some]
  intro byte found
  exact before i less (pattern_of_escape found)

/-- The bytes behind the sign of a code. -/
theorem getD_behind {content rest : Bytes} {pos : Nat} (cut : pattern ++ rest = content.drop pos) (i : Nat) :
    content.getD (pos + 3 + i) 0 = rest.getD i 0 := by
  have shifted : content.getD (pos + 3 + i) 0 = (content.drop pos).getD (3 + i) 0 := by
    rw [List.getD_eq_getElem?_getD, List.getD_eq_getElem?_getD, List.getElem?_drop, Nat.add_assoc]
  rw [shifted, ← cut, pattern, Nat.add_comm]
  rfl

/-- The sign alone is no code. -/
theorem escape_unfinished {rest : Bytes} (unfinished : ¬(2 ≤ rest.length ∧ isxdigit (rest.getD 0 0).toInt8 = true ∧
    isxdigit (rest.getD 1 0).toInt8 = true)) : ∀ i < 3, escape ((pattern ++ rest).drop i) = none := by
  intro i less
  interval_cases i
  · rw [Option.eq_none_iff_forall_ne_some]
    intro byte found
    obtain ⟨first, second, more, same, high, low, -⟩ := escape_eq_some_iff.mp found
    rw [List.drop_zero] at same
    obtain rfl : rest = first :: second :: more := @List.append_cancel_left _ pattern _ _ same
    exact unfinished ⟨Nat.le_add_left 2 more.length, high, low⟩
  · exact escape_other (by decide)
  · exact escape_other (by decide)

/-- Where the loop ends, it has rescanned the text; and it ends after as many turns as there are bytes to scan. -/
theorem replaceLoop_rescans {turns : Nat} {content result : Bytes} {pos : Nat} (inside : pos ≤ content.length)
    (rescans : Rescans (content.drop pos) result) :
    (∀ final, replaceLoop turns content pos = some final → final = content.take pos ++ result) ∧
      (content.length - pos < turns → (replaceLoop turns content pos).isSome = true) := by
  induction turns generalizing content result pos with
  | zero => exact ⟨fun final impossible => (by cases impossible), fun impossible => absurd impossible (Nat.not_lt_zero _)⟩
  | succ turns ih =>
    rw [replaceLoop, find]
    cases occurs : occurrence pattern (content.drop pos) with
    | none =>
      have plain := escape_before (occurrence_eq_none_iff.mp occurs)
      obtain ⟨later, same, behind⟩ := rescans.skip plain (Nat.le_refl _)
      rw [List.drop_length] at behind
      cases behind with
      | again found _ => cases found
      | nil =>
        rw [List.take_length, List.append_nil] at same
        simp [same]
    | some here =>
      obtain ⟨less, front, before⟩ := occurrence_eq_some_iff.mp occurs
      rw [List.length_drop] at less
      have plain := escape_before before
      obtain ⟨later, same, behind⟩ := rescans.skip plain (by rw [List.length_drop]; omega)
      rw [List.drop_drop] at front behind
      have whole : content.take pos ++ result = content.take (pos + here) ++ later := by
        rw [same, ← List.append_assoc, List.take_add]
      obtain ⟨rest, cut⟩ := front
      have within : pos + here ≤ content.length := by omega
      have kept : (content.take (pos + here)).length = pos + here := List.length_take_of_le within
      have size : content.length = pos + here + 3 + rest.length := by
        have lengths := congrArg List.length cut
        rw [List.length_append, List.length_drop, pattern, List.length_cons, List.length_cons, List.length_singleton]
          at lengths
        omega
      have code := getD_behind cut
      rw [Option.map_some]
      dsimp only
      split
      case isTrue valid =>
        obtain ⟨long, high, low⟩ := valid
        rcases rest with _ | ⟨first, _ | ⟨second, rest⟩⟩
        · rw [List.length_nil] at size
          omega
        · rw [List.length_singleton] at size
          omega
        · have one : content.getD (pos + here + 3) 0 = first := code 0
          have two : content.getD (pos + here + 4) 0 = second := code 1
          rw [digitAt, one] at high
          rw [digitAt, two] at low
          rw [one, two]
          have found : escape (content.drop (pos + here)) = some (hexPairToByte first second) :=
            escape_eq_some_iff.mpr ⟨first, second, rest, cut.symm, high, low, rfl⟩
          have next := behind.of_escape found
          rw [List.drop_drop] at next
          rw [List.length_cons, List.length_cons] at size
          have edited : (content.take (pos + here) ++ hexPairToByte first second :: content.drop (pos + here + 5)).length +
              4 = content.length := by
            rw [List.length_append, List.length_cons, List.length_drop, kept]
            omega
          have step := @ih (content.take (pos + here) ++ hexPairToByte first second :: content.drop (pos + here + 5)) later
            (pos + here) (by omega) (by rw [List.drop_left' kept]; exact next)
          rw [List.take_left' kept] at step
          exact ⟨fun final ends => (step.1 final ends).trans whole.symm, fun enough => step.2 (by omega)⟩
      case isFalse invalid =>
        have none : ∀ i < 3, escape ((content.drop (pos + here)).drop i) = none := by
          rw [← cut]
          apply escape_unfinished
          intro finished
          refine invalid ⟨by omega, ?_, ?_⟩
          · rw [digitAt, code 0]
            exact finished.2.1
          · rw [digitAt, code 1]
            exact finished.2.2
        obtain ⟨later', same', behind'⟩ := behind.skip none (by rw [List.length_drop]; omega)
        rw [List.drop_drop] at behind'
        have whole' : content.take pos ++ result = content.take (pos + here + 3) ++ later' := by
          rw [whole, same', ← List.append_assoc, ← List.take_add]
        have step := @ih content later' (pos + here + 3) (by omega) behind'
        exact ⟨fun final ends => (step.1 final ends).trans whole'.symm, fun enough => step.2 (by omega)⟩

/-- The text that the call leaves; a turn for each byte and one more are enough. -/
def replaced (content : Bytes) : Bytes := (replaceHexCodes (content.length + 1) content).getD content

theorem replaceHexCodes_replaced (content : Bytes) :
    replaceHexCodes (content.length + 1) content = some (replaced content) ∧ Rescans content (replaced content) := by
  obtain ⟨result, rescans⟩ := exists_rescans content
  have loop := @replaceLoop_rescans (content.length + 1) content result 0 (Nat.zero_le _) rescans
  obtain ⟨final, ends⟩ := Option.isSome_iff_exists.mp (loop.2 (by omega))
  have same := loop.1 final ends
  rw [List.take_zero, List.nil_append] at same
  have left : replaced content = final := by
    unfold replaced replaceHexCodes
    rw [ends]
    rfl
  rw [left, same]
  exact ⟨same ▸ ends, rescans⟩

theorem terminates (content : Bytes) :
    ∃ turns result, replaceHexCodes turns content = some result ∧ Rescans content result :=
  ⟨content.length + 1, replaced content, replaceHexCodes_replaced content⟩

theorem singlePass_of_rescans {content result : Bytes} (rescans : Rescans content result) :
    SinglePass content ↔ result = reference content := by
  constructor
  · intro once
    obtain ⟨turns, ends⟩ := once
    have loop := (@replaceLoop_rescans turns content result 0 (Nat.zero_le _) rescans).1 _ ends
    exact loop.symm
  · intro same
    obtain ⟨final, ends⟩ := Option.isSome_iff_exists.mp
      ((@replaceLoop_rescans (content.length + 1) content result 0 (Nat.zero_le _) rescans).2 (by omega))
    have loop := (@replaceLoop_rescans _ content result 0 (Nat.zero_le _) rescans).1 _ ends
    exact ⟨content.length + 1, ends.trans (by rw [loop, ← same]; rfl)⟩

/-! ## Against one pass -/

theorem nested_plain {byte : UInt8} {rest : Bytes} (none : escape (byte :: rest) = .none) :
    Nested (byte :: rest) ↔ Nested rest := by
  constructor
  · intro nested
    obtain ⟨pos, value, found, again⟩ := nested
    cases pos with
    | zero =>
      rw [List.drop_zero, none] at found
      cases found
    | succ pos =>
      refine ⟨pos, value, found, ?_⟩
      rw [Nat.add_right_comm, List.drop_succ_cons] at again
      exact again
  · intro nested
    obtain ⟨pos, value, found, again⟩ := nested
    refine ⟨pos + 1, value, found, ?_⟩
    rw [Nat.add_right_comm, List.drop_succ_cons]
    exact again

theorem nested_escape {text : Bytes} {byte : UInt8} (found : escape text = some byte)
    (apart : escape (byte :: text.drop 5) = none) : Nested text ↔ Nested (byte :: text.drop 5) := by
  rw [nested_plain apart]
  constructor
  · intro nested
    obtain ⟨pos, value, here, again⟩ := nested
    rcases Nat.lt_or_ge pos 5 with inside | behind
    · cases pos with
      | zero =>
        rw [List.drop_zero, found] at here
        cases here
        rw [Nat.zero_add, apart] at again
        cases again
      | succ pos =>
        rw [escape_inside found (Nat.zero_lt_succ _) inside] at here
        cases here
    · obtain ⟨pos, rfl⟩ := Nat.exists_eq_add_of_le behind
      rw [← List.drop_drop] at here
      rw [Nat.add_assoc, ← List.drop_drop] at again
      exact ⟨pos, value, here, again⟩
  · intro nested
    obtain ⟨pos, value, here, again⟩ := nested
    refine ⟨5 + pos, value, ?_, ?_⟩
    · rw [← List.drop_drop]
      exact here
    · rw [Nat.add_assoc, ← List.drop_drop]
      exact again

/-- A second code made of the first one's byte makes the text shorter than one pass does. -/
theorem length_reference_again {text : Bytes} {byte value : UInt8} (found : escape text = some byte)
    (again : escape (byte :: text.drop 5) = some value) :
    (reference (byte :: text.drop 5)).length < (reference text).length := by
  rw [reference_escape found, reference_escape again]
  obtain ⟨first, second, rest, same, high, low, -⟩ := escape_eq_some_iff.mp again
  have behind : text.drop 5 = 48 :: 120 :: first :: second :: rest := (List.cons.inj same).2
  have digit : ∀ {digit : UInt8}, isxdigit digit.toInt8 = true → digit ≠ 92 := by
    intro digit valid same
    subst same
    cases valid
  rw [behind, reference_plain (escape_other (by decide)), reference_plain (escape_other (by decide)),
    reference_plain (escape_other (digit high)), reference_plain (escape_other (digit low))]
  simp

theorem Rescans.compare {text result : Bytes} (rescans : Rescans text result) :
    result.length ≤ (reference text).length ∧ (result = reference text ↔ ¬Nested text) := by
  induction rescans with
  | nil =>
    refine ⟨Nat.le_refl _, iff_of_true rfl fun nested => ?_⟩
    obtain ⟨pos, value, found, -⟩ := nested
    rw [List.drop_nil] at found
    cases found
  | plain none next ih =>
    rw [reference_plain none, nested_plain none, ← ih.2, List.cons.injEq, and_iff_right rfl]
    exact ⟨Nat.succ_le_succ ih.1, Iff.rfl⟩
  | @again text result byte found next ih =>
    cases behind : escape (byte :: text.drop 5) with
    | none =>
      rw [nested_escape found behind, ← ih.2, reference_escape found, ← reference_plain behind]
      exact ⟨ih.1, Iff.rfl⟩
    | some value =>
      have shorter := length_reference_again found behind
      refine ⟨by omega, iff_of_false ?_ ?_⟩
      · intro same
        rw [← same] at shorter
        omega
      · rw [not_not]
        exact ⟨0, byte, found, by rw [Nat.zero_add, behind]; rfl⟩

theorem singlePass_iff (content : Bytes) : SinglePass content ↔ ¬Nested content := by
  obtain ⟨result, rescans⟩ := exists_rescans content
  rw [singlePass_of_rescans rescans, rescans.compare.2]

/-- The loop always ends; it is one pass unless a code's byte makes another code of what stands behind it. -/
theorem replaces_once_iff (content : Bytes) :
    (∃ turns result, replaceHexCodes turns content = some result) ∧ (SinglePass content ↔ ¬Nested content) := by
  obtain ⟨turns, result, ends, -⟩ := terminates content
  exact ⟨⟨turns, result, ends⟩, singlePass_iff content⟩

/-- A backslash in front of `0x41`. -/
theorem replaces_twice : ¬∀ content, SinglePass content := by
  intro all
  have once := all [92, 48, 120, 53, 67, 48, 120, 52, 49]
  rw [singlePass_iff] at once
  exact once ⟨0, 92, by decide, by decide⟩

end Mantids.Helpers.HexCodes
