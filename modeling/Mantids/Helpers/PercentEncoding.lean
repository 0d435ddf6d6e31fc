import Mathlib
import Mantids.Helpers.Encoders

/-! Percent encoding of strings (`Encoders::toURL`, `Encoders::fromURL` of `encoders.cpp`), whose characters are
signed. -/

set_option autoImplicit false

namespace Mantids.Helpers.PercentEncoding

open Memory

inductive EURLEncodingType where
  | encStrict
  | encQuoteprint
  deriving DecidableEq, Repr

def isxdigit (c : Int8) : Bool := (48 ≤ c && c ≤ 57) || (65 ≤ c && c ≤ 70) || (97 ≤ c && c ≤ 102)

/-- Division is towards zero, of a negative character too. -/
def toHexPair (value : Int8) (part : Nat) : Int8 :=
  let value := if part = 1 then value / 0x10 else if part = 2 then value &&& 0xF else value
  if 0x0 ≤ value && value ≤ 0x9 then 48 + value
  else if 0xA ≤ value && value ≤ 0xF then 65 + value - 0xA
  else 48

def hexToValue (v : Int8) : Int8 :=
  if 48 ≤ v && v ≤ 57 then v - 48
  else if 65 ≤ v && v ≤ 70 then v - 65 + 10
  else if 97 ≤ v && v ≤ 102 then v - 97 + 10
  else 0

def getIfMustBeURLEncoded (c : Int8) : EURLEncodingType → Bool
  | .encQuoteprint => c = 34 || !(32 ≤ c && c ≤ 126)
  | .encStrict => !((65 ≤ c && c ≤ 90) || (97 ≤ c && c ≤ 122) || (48 ≤ c && c ≤ 57))

def calcURLEncodingExpandedStringSize (str : Bytes) (urlEncodingType : EURLEncodingType) : Nat :=
  match str with
  | [] => 0
  | c :: rest =>
    (if getIfMustBeURLEncoded c.toInt8 urlEncodingType then 3 else 1) +
      calcURLEncodingExpandedStringSize rest urlEncodingType

/-- `out[x++] = value`, inside of `out` only. -/
def put (value : Int8) : Nat × Bytes → Option (Nat × Bytes)
  | (x, out) => if x < out.length then some (x + 1, out.set x value.toUInt8) else none

def toURLLoop (urlEncodingType : EURLEncodingType) : (str : Bytes) → Nat × Bytes → Option (Nat × Bytes)
  | [], state => some state
  | byte :: rest, state =>
    let c := byte.toInt8
    if getIfMustBeURLEncoded c urlEncodingType then do
      let state ← put 37 state
      let state ← put (toHexPair c 1) state
      let state ← put (toHexPair c 2) state
      toURLLoop urlEncodingType rest state
    else do
      let state ← put c state
      toURLLoop urlEncodingType rest state

/-- How many bytes were written, and the string. -/
def toURL (str : Bytes) (urlEncodingType : EURLEncodingType) : Option (Nat × Bytes) :=
  if str = [] then some (0, [])
  else
    toURLLoop urlEncodingType str (0, List.replicate (calcURLEncodingExpandedStringSize str urlEncodingType) 32)

def fromURL : (urlEncodedStr : Bytes) → Bytes
  | mark :: first :: second :: rest =>
    if mark = 37 && isxdigit first.toInt8 && isxdigit second.toInt8 then
      (hexToValue first.toInt8 * 0x10 + hexToValue second.toInt8).toUInt8 :: fromURL rest
    else mark :: fromURL (first :: second :: rest)
  | mark :: rest => mark :: fromURL rest
  | [] => []

/-! ## What is written -/

/-- The bytes for one character. -/
def coded (urlEncodingType : EURLEncodingType) (byte : UInt8) : Bytes :=
  if getIfMustBeURLEncoded byte.toInt8 urlEncodingType then
    [37, (toHexPair byte.toInt8 1).toUInt8, (toHexPair byte.toInt8 2).toUInt8]
  else [byte]

section
variable {urlEncodingType : EURLEncodingType}

theorem put_front (value : Int8) (done : Bytes) (left : Nat) :
    put value (done.length, done ++ List.replicate (left + 1) 32) =
      some ((done ++ [value.toUInt8]).length, done ++ [value.toUInt8] ++ List.replicate left 32) := by
  have inside : done.length < (done ++ List.replicate (left + 1) (32 : UInt8)).length := by
    rw [List.length_append, List.length_replicate]
    omega
  rw [put, if_pos inside, List.set_append_right _ _ (Nat.le_refl _), Nat.sub_self, List.replicate_succ, List.set_cons_zero,
    List.length_append, List.length_singleton, List.append_assoc, List.singleton_append]

/-- Each turn fills the bytes that were counted for it. -/
theorem toURLLoop_eq (str done : Bytes) (left : Nat) :
    toURLLoop urlEncodingType str
        (done.length, done ++ List.replicate (calcURLEncodingExpandedStringSize str urlEncodingType + left) 32) =
      some ((done ++ str.flatMap (coded urlEncodingType)).length,
        done ++ str.flatMap (coded urlEncodingType) ++ List.replicate left 32) := by
  induction str generalizing done with
  | nil => simp [toURLLoop, calcURLEncodingExpandedStringSize]
  | cons byte rest ih =>
    rw [toURLLoop, calcURLEncodingExpandedStringSize, List.flatMap_cons, coded]
    split
    case isTrue encoded =>
      have three : 3 + calcURLEncodingExpandedStringSize rest urlEncodingType + left =
          calcURLEncodingExpandedStringSize rest urlEncodingType + left + 1 + 1 + 1 := by omega
      rw [three, put_front]
      simp only [Option.bind_eq_bind, Option.bind_some, put_front]
      rw [ih]
      simp only [List.append_assoc, List.cons_append, List.nil_append]
      rfl
    case isFalse plain =>
      have one : 1 + calcURLEncodingExpandedStringSize rest urlEncodingType + left =
          calcURLEncodingExpandedStringSize rest urlEncodingType + left + 1 := by omega
      rw [one, put_front]
      simp only [Option.bind_eq_bind, Option.bind_some]
      rw [ih]
      simp only [List.append_assoc, List.cons_append, List.nil_append, UInt8.toUInt8_toInt8]

theorem length_coded (byte : UInt8) :
    (coded urlEncodingType byte).length = if getIfMustBeURLEncoded byte.toInt8 urlEncodingType then 3 else 1 := by
  unfold coded
  split <;> rfl

theorem length_flatMap_coded (str : Bytes) :
    (str.flatMap (coded urlEncodingType)).length = calcURLEncodingExpandedStringSize str urlEncodingType := by
  induction str with
  | nil => rfl
  | cons byte rest ih =>
    rw [List.flatMap_cons, List.length_append, length_coded, ih]
    rfl

/-- As many bytes are written as were announced, and no other. -/
theorem toURL_eq (str : Bytes) (urlEncodingType : EURLEncodingType) : toURL str urlEncodingType =
    some (calcURLEncodingExpandedStringSize str urlEncodingType, str.flatMap (coded urlEncodingType)) := by
  unfold toURL
  split
  case isTrue none =>
    rw [none]
    rfl
  case isFalse some =>
    have all := @toURLLoop_eq urlEncodingType str [] 0
    simp only [List.length_nil, List.nil_append, Nat.add_zero, List.replicate_zero, List.append_nil] at all
    rw [all, length_flatMap_coded]

end

/-! ## What is read -/

/-- A mark with two digits behind it. -/
def Escape (text : Bytes) : Prop :=
  ∃ first second, isxdigit first.toInt8 = true ∧ isxdigit second.toInt8 = true ∧ [37, first, second] <+: text

/-- Somewhere in the text. -/
def Escapes (text : Bytes) : Prop :=
  ∃ first second, isxdigit first.toInt8 = true ∧ isxdigit second.toInt8 = true ∧ [37, first, second] <:+: text

theorem escapes_cons (byte : UInt8) (rest : Bytes) : Escapes (byte :: rest) ↔ Escape (byte :: rest) ∨ Escapes rest := by
  simp only [Escapes, Escape, List.infix_cons_iff, and_or_left, exists_or]

theorem fromURL_cons {byte : UInt8} {rest : Bytes} (none : ¬Escape (byte :: rest)) :
    fromURL (byte :: rest) = byte :: fromURL rest := by
  match rest with
  | [] => rfl
  | [_] => rfl
  | first :: second :: after =>
    rw [fromURL, if_neg]
    intro all
    simp only [Bool.and_eq_true, decide_eq_true_eq] at all
    obtain ⟨⟨rfl, one⟩, two⟩ := all
    exact none ⟨first, second, one, two, after, rfl⟩

section
variable {urlEncodingType : EURLEncodingType}

/-- A digit is never encoded. -/
theorem digit_plain (byte : UInt8) :
    isxdigit byte.toInt8 = true → getIfMustBeURLEncoded byte.toInt8 urlEncodingType = false := by
  cases urlEncodingType with
  | encStrict =>
    revert byte
    apply Encoders.forall_byte
    decide +kernel
  | encQuoteprint =>
    revert byte
    apply Encoders.forall_byte
    decide +kernel

/-- An encoded character is read back, but for its sign. -/
theorem fromURL_encoded {byte : UInt8} (encoded : getIfMustBeURLEncoded byte.toInt8 urlEncodingType = true)
    (rest : Bytes) :
    fromURL (coded urlEncodingType byte ++ rest) = (if byte < 128 then byte else byte &&& 0xF) :: fromURL rest := by
  have digits : isxdigit (toHexPair byte.toInt8 1) = true ∧ isxdigit (toHexPair byte.toInt8 2) = true ∧
      (hexToValue (toHexPair byte.toInt8 1) * 0x10 + hexToValue (toHexPair byte.toInt8 2)).toUInt8 =
        if byte < 128 then byte else byte &&& 0xF := by
    clear encoded
    revert byte
    apply Encoders.forall_byte
    decide +kernel
  obtain ⟨one, two, value⟩ := digits
  rw [coded, if_pos encoded, List.cons_append, List.cons_append, List.cons_append, List.nil_append, fromURL]
  simp only [Int8.toInt8_toUInt8, one, two, value, decide_true, Bool.and_self, if_true]

/-- Encoded and decoded. -/
def restored (urlEncodingType : EURLEncodingType) (str : Bytes) : Bytes := fromURL (str.flatMap (coded urlEncodingType))

/-- A digit in front of the code is one of the text. -/
theorem digit_front {digit : UInt8} (isDigit : isxdigit digit.toInt8 = true) (tail str : Bytes) :
    digit :: tail <+: str.flatMap (coded urlEncodingType) ↔
      ∃ rest, str = digit :: rest ∧ tail <+: rest.flatMap (coded urlEncodingType) := by
  constructor
  · intro front
    cases str with
    | nil => exact absurd (List.prefix_nil.mp front) (by simp)
    | cons byte rest =>
      rw [List.flatMap_cons, coded] at front
      split at front
      case isTrue encoded =>
        -- what is encoded begins with a mark
        have mark := (List.cons_prefix_cons.mp front).1
        rw [mark] at isDigit
        exact absurd isDigit (by decide)
      case isFalse plain =>
        obtain ⟨same, behind⟩ := List.cons_prefix_cons.mp front
        exact ⟨rest, by rw [same], behind⟩
  · rintro ⟨rest, rfl, behind⟩
    have plain := @digit_plain urlEncodingType digit isDigit
    rw [List.flatMap_cons, coded, plain, if_neg Bool.false_ne_true]
    exact List.cons_prefix_cons.mpr ⟨rfl, behind⟩

theorem escape_coded (byte : UInt8) (rest : Bytes) :
    Escape (byte :: rest.flatMap (coded urlEncodingType)) ↔ Escape (byte :: rest) := by
  constructor
  · rintro ⟨first, second, one, two, front⟩
    obtain ⟨same, behind⟩ := List.cons_prefix_cons.mp front
    obtain ⟨others, rfl, more⟩ := (digit_front one _ _).mp behind
    obtain ⟨after, rfl, -⟩ := (digit_front two _ _).mp more
    exact ⟨first, second, one, two, after, by rw [same]; rfl⟩
  · rintro ⟨first, second, one, two, front⟩
    obtain ⟨same, after, split⟩ := List.cons_prefix_cons.mp front
    refine ⟨first, second, one, two, List.cons_prefix_cons.mpr ⟨same, ?_⟩⟩
    apply (digit_front one _ _).mpr
    refine ⟨second :: after, split.symm, ?_⟩
    exact (digit_front two _ _).mpr ⟨after, rfl, List.nil_prefix⟩

/-- An encoded character comes back but for its sign, a plain one as it is, and what is an escape is one byte. -/
theorem restored_cons (byte : UInt8) (rest : Bytes) :
    (getIfMustBeURLEncoded byte.toInt8 urlEncodingType = true ∧ restored urlEncodingType (byte :: rest) =
        (if byte < 128 then byte else byte &&& 0xF) :: restored urlEncodingType rest) ∨
      (getIfMustBeURLEncoded byte.toInt8 urlEncodingType = false ∧ ¬Escape (byte :: rest) ∧
        restored urlEncodingType (byte :: rest) = byte :: restored urlEncodingType rest) ∨
      (getIfMustBeURLEncoded byte.toInt8 urlEncodingType = false ∧ Escape (byte :: rest) ∧
        ∃ first second after value, rest = first :: second :: after ∧
          restored urlEncodingType (byte :: rest) = value :: restored urlEncodingType after) := by
  cases encoded : getIfMustBeURLEncoded byte.toInt8 urlEncodingType with
  | true =>
    refine .inl ⟨rfl, ?_⟩
    rw [restored, List.flatMap_cons, fromURL_encoded encoded]
    rfl
  | false =>
    have single : coded urlEncodingType byte = [byte] := by
      rw [coded, encoded, if_neg Bool.false_ne_true]
    by_cases escape : Escape (byte :: rest)
    · refine .inr (.inr ⟨rfl, escape, ?_⟩)
      obtain ⟨first, second, one, two, front⟩ := escape
      obtain ⟨same, after, split⟩ := List.cons_prefix_cons.mp front
      have plain := @digit_plain urlEncodingType first one
      have plain' := @digit_plain urlEncodingType second two
      refine ⟨first, second, after, (hexToValue first.toInt8 * 0x10 + hexToValue second.toInt8).toUInt8, split.symm, ?_⟩
      rw [restored, ← split, List.flatMap_cons, single, ← same]
      simp only [List.cons_append, List.nil_append, List.flatMap_cons, coded, plain, plain', Bool.false_eq_true, if_false,
        fromURL, one, two, decide_true, Bool.and_self, if_true]
      rfl
    · refine .inr (.inl ⟨rfl, escape, ?_⟩)
      rw [restored, List.flatMap_cons, single, List.singleton_append, fromURL_cons (mt (escape_coded byte rest).mp escape)]
      rfl

theorem length_restored_le (str : Bytes) : (restored urlEncodingType str).length ≤ str.length := by
  generalize size : str.length = count
  induction count using Nat.strong_induction_on generalizing str with
  | _ count ih =>
    cases str with
    | nil => exact Nat.zero_le _
    | cons byte rest =>
      rw [List.length_cons] at size
      obtain ⟨-, result⟩ | ⟨-, -, result⟩ | ⟨-, -, first, second, after, value, split, result⟩ :=
        @restored_cons urlEncodingType byte rest
      · have shorter := ih rest.length (by omega) rest rfl
        rw [result, List.length_cons]
        omega
      · have shorter := ih rest.length (by omega) rest rfl
        rw [result, List.length_cons]
        omega
      · rw [split, List.length_cons, List.length_cons] at size
        have shorter := ih after.length (by omega) after rfl
        rw [result, List.length_cons]
        omega

theorem encoded_mark {byte : UInt8} (encoded : getIfMustBeURLEncoded byte.toInt8 .encQuoteprint = true) : byte ≠ 37 := by
  intro mark
  rw [mark] at encoded
  exact absurd encoded (by decide)

/-- Only a character of ASCII is plain. -/
theorem plain_ascii (byte : UInt8) : getIfMustBeURLEncoded byte.toInt8 urlEncodingType = false → byte < 128 := by
  cases urlEncodingType with
  | encStrict =>
    revert byte
    apply Encoders.forall_byte
    decide +kernel
  | encQuoteprint =>
    revert byte
    apply Encoders.forall_byte
    decide +kernel

theorem sign_iff (byte : UInt8) : (if byte < 128 then byte else byte &&& 0xF) = byte ↔ byte < 128 := by
  revert byte
  apply Encoders.forall_byte
  decide +kernel

theorem restored_eq_iff (str : Bytes) : restored urlEncodingType str = str ↔
    (∀ byte ∈ str, byte < 128) ∧ (urlEncodingType = .encQuoteprint → ¬Escapes str) := by
  induction str with
  | nil =>
    refine iff_of_true rfl ⟨List.forall_mem_nil _, ?_⟩
    rintro - ⟨first, second, -, -, inside⟩
    exact absurd (List.infix_nil.mp inside) (by simp)
  | cons byte rest ih =>
    rw [List.forall_mem_cons, escapes_cons, not_or]
    obtain ⟨encoded, result⟩ | ⟨plain, none, result⟩ | ⟨plain, escape, first, second, after, value, split, result⟩ :=
      @restored_cons urlEncodingType byte rest
    · have none : urlEncodingType = .encQuoteprint → ¬Escape (byte :: rest) := by
        rintro rfl ⟨_, _, -, -, front⟩
        exact encoded_mark encoded (List.cons_prefix_cons.mp front).1.symm
      rw [result, List.cons.injEq, sign_iff, ih]
      tauto
    · have ascii := plain_ascii byte plain
      rw [result, List.cons.injEq, ih]
      tauto
    · apply iff_of_false
      · -- an escape makes the text shorter
        intro same
        have shorter := @length_restored_le urlEncodingType after
        have sizes := congrArg List.length (result.symm.trans same)
        rw [split] at sizes
        simp only [List.length_cons] at sizes
        omega
      · rintro ⟨-, never⟩
        cases urlEncodingType with
        | encQuoteprint => exact (never rfl).1 escape
        | encStrict =>
          obtain ⟨_, _, -, -, front⟩ := escape
          rw [← (List.cons_prefix_cons.mp front).1] at plain
          exact absurd plain (by decide)

end

/-! ## There and back -/

/-- The size that is calculated before is that of the string, and so many bytes are written. -/
def Announced (s : Bytes) (mode : EURLEncodingType) : Prop :=
  ∃ out, toURL s mode = some (calcURLEncodingExpandedStringSize s mode, out) ∧
    out.length = calcURLEncodingExpandedStringSize s mode

/-- What was encoded is decoded to itself. -/
def Reversible (s : Bytes) (mode : EURLEncodingType) : Prop :=
  ∃ written out, toURL s mode = some (written, out) ∧ fromURL out = s

/-- Sizing and writing agree on every string, and it comes back if its characters are of ASCII and, where the mark of
an escape is not encoded, no mark is followed by two digits. -/
theorem announced_and_reversible_iff (s : Bytes) (mode : EURLEncodingType) :
    Announced s mode ∧ (Announced s mode ∧ Reversible s mode ↔
      (∀ byte ∈ s, byte < 128) ∧ (mode = .encQuoteprint → ¬Escapes s)) := by
  have announced : Announced s mode := ⟨_, toURL_eq s mode, length_flatMap_coded s⟩
  refine ⟨announced, ?_⟩
  rw [← restored_eq_iff]
  constructor
  · rintro ⟨-, _, _, result, same⟩
    rw [toURL_eq] at result
    cases result
    exact same
  · intro same
    exact ⟨announced, _, _, toURL_eq s mode, same⟩

/-- The byte 255 comes back as 15, and of `%41` the letter, where the mark is not encoded. -/
theorem not_reversible : ¬Reversible [255] .encStrict ∧ ¬Reversible [37, 52, 49] .encQuoteprint := by
  have strict : ¬(∀ byte ∈ ([255] : Bytes), byte < 128) := by decide
  have escapes : Escapes [37, 52, 49] := ⟨52, 49, rfl, rfl, [], [], rfl⟩
  constructor
  · rintro ⟨_, _, result, same⟩
    rw [toURL_eq] at result
    cases result
    exact strict ((restored_eq_iff _).mp same).1
  · rintro ⟨_, _, result, same⟩
    rw [toURL_eq] at result
    cases result
    exact ((restored_eq_iff _).mp same).2 rfl escapes

end Mantids.Helpers.PercentEncoding
