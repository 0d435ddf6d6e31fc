import Mantids.Library.Replacement
import Mantids.Library.ScriptLiterals

/-! Values of the server in the script of a page (`replaceByJVar` of `webclienthandler.cpp`), and how a script reads
them. -/

set_option autoImplicit false

namespace Mantids.RPC.InsertedValues

open Library Library.Script

/-! ## The JSON library -/

/-- The whole numbers of the library are those of 64 bits, with a sign or without. -/
abbrev Integer := { number : Int // -2 ^ 63 ≤ number ∧ number < 2 ^ 64 }

mutual

inductive Json (R : Type) where
  | null
  | bool (value : Bool)
  | integer (number : Integer)
  | real (number : R)
  | string (text : Text)
  | array (items : Items R)
  | object (members : Members R)

inductive Items (R : Type) where
  | nil
  | cons (item : Json R) (rest : Items R)

inductive Members (R : Type) where
  | nil
  | cons (name : Text) (value : Json R) (rest : Members R)

end

/-- The other numbers: what is written for them, with a point or an exponent, and what a script reads. -/
structure Reals where
  R : Type
  text : R → Text
  read : Text → Option R
  read_text : ∀ number, read (text number) = some number
  numeric : ∀ number, ∀ c ∈ text number, isNumeric c = true
  marked : ∀ number, ∃ c ∈ text number, c = '.' ∨ c = 'e'

/-- Four digits. -/
def toHex16Bit (x : Nat) : Text :=
  [(x / 4096 % 16).digitChar, (x / 256 % 16).digitChar, (x / 16 % 16).digitChar, (x % 16).digitChar]

def appendHex (unit : Nat) : Text := '\\' :: 'u' :: toHex16Bit unit

/-- The escapes of the writer. What is not ASCII is written by its code units. -/
def quotedChar (c : Char) : Text :=
  if c = '"' then ['\\', '"']
  else if c = '\\' then ['\\', '\\']
  else if c.toNat = 8 then ['\\', 'b']
  else if c.toNat = 12 then ['\\', 'f']
  else if c = '\n' then ['\\', 'n']
  else if c = '\r' then ['\\', 'r']
  else if c = '\t' then ['\\', 't']
  else if c.toNat < 0x20 ∨ 0x80 ≤ c.toNat then (units c).flatMap appendHex
  else [c]

def valueToQuotedString (text : Text) : Text := '"' :: text.flatMap quotedChar ++ ['"']

def valueToString (number : Int) : Text :=
  if number < 0 then '-' :: Nat.toDigits 10 number.natAbs else Nat.toDigits 10 number.natAbs

section
variable (reals : Reals)

mutual

/-- `FastWriter::writeValue` -/
def Json.writeValue : Json reals.R → Text
  | .null => "null".toList
  | .bool value => if value then "true".toList else "false".toList
  | .integer number => valueToString number
  | .real number => reals.text number
  | .string text => valueToQuotedString text
  | .array items => '[' :: items.writeItems ++ [']']
  | .object members => '{' :: members.writeMembers ++ ['}']

def Items.writeItems : Items reals.R → Text
  | .nil => []
  | .cons item .nil => item.writeValue
  | .cons item rest => item.writeValue ++ ',' :: rest.writeItems

def Members.writeMembers : Members reals.R → Text
  | .nil => []
  | .cons name value .nil => valueToQuotedString name ++ ':' :: value.writeValue
  | .cons name value rest => valueToQuotedString name ++ ':' :: value.writeValue ++ ',' :: rest.writeMembers

end

/-- `FastWriter::write` -/
def Json.write (value : Json reals.R) : Text := value.writeValue reals ++ ['\n']

/-! ## The source -/

def replaceByJVar (value : Json reals.R) (scriptVarName : Text) : Text :=
  let str := (value.write reals).filter (· ≠ '\n')
  let str := replaceAll "<".toList "\\<".toList str
  let str := replaceAll ">".toList "\\>".toList str
  if scriptVarName ≠ [] then
    "<script>\nconst ".toList ++ scriptVarName ++ " = ".toList ++ str ++ ";\n</script>".toList
  else str

/-! ## The text that is inserted -/

/-- What becomes of a character that is written. -/
def angle (c : Char) : Text := if c = '<' ∨ c = '>' then ['\\', c] else [c]

def angles (text : Text) : Text := text.flatMap angle

def literal (value : Json reals.R) : Text := angles (value.writeValue reals)

/-- What stands in front of the literal, and behind it. -/
def opening (scriptVarName : Text) : Text :=
  if scriptVarName = [] then [] else "<script>\nconst ".toList ++ scriptVarName ++ " = ".toList

def closing (scriptVarName : Text) : Text := if scriptVarName = [] then [] else ";\n</script>".toList

theorem angles_append (front text : Text) : angles (front ++ text) = angles front ++ angles text :=
  List.flatMap_append ..

theorem angles_cons {c : Char} (other : c ≠ '<' ∧ c ≠ '>') (text : Text) : angles (c :: text) = c :: angles text := by
  rw [angles, List.flatMap_cons, angle, if_neg (not_or.mpr other)]
  rfl

/-- Without such characters, the text is as it was. -/
theorem angles_of_plain {text : Text} (plain : ∀ c ∈ text, c ≠ '<' ∧ c ≠ '>') : angles text = text := by
  induction text with
  | nil => rfl
  | cons c rest ih =>
    obtain ⟨first, others⟩ := List.forall_mem_cons.mp plain
    rw [angles_cons first, ih others]

theorem replaceAll_single (sign : Char) (replacement text : Text) :
    replaceAll [sign] replacement text = text.flatMap fun c => if c = sign then replacement else [c] := by
  induction text with
  | nil => rfl
  | cons c rest ih =>
    by_cases same : c = sign
    · rw [same, List.flatMap_cons, if_pos rfl, ← ih]
      exact replaceAll_occurrence (List.cons_ne_nil _ _) rest
    · have other : ¬[sign] <+: c :: rest := fun here => same (List.cons_prefix_cons.mp here).1.symm
      rw [replaceAll_other other, List.flatMap_cons, if_neg same, ih]
      rfl

theorem replaced_angles (text : Text) :
    replaceAll ">".toList "\\>".toList (replaceAll "<".toList "\\<".toList text) = angles text := by
  show replaceAll ['>'] ['\\', '>'] (replaceAll ['<'] ['\\', '<'] text) = angles text
  rw [replaceAll_single, replaceAll_single, List.flatMap_assoc]
  apply List.flatMap_congr
  intro c _
  by_cases less : c = '<'
  · rw [less]
    rfl
  · by_cases greater : c = '>'
    · rw [greater]
      rfl
    · simp [angle, less, greater]

/-! ## A character in a string -/

theorem hexValue_digitChar {digit : Nat} (small : digit < 16) : hexValue digit.digitChar = some digit := by
  revert digit
  decide

theorem digitChar_plain {digit : Nat} (small : digit < 16) :
    digit.digitChar ≠ '<' ∧ digit.digitChar ≠ '>' ∧ digit.digitChar ≠ '\n' := by
  revert digit
  decide

theorem appendHex_plain (unit : Nat) : ∀ c ∈ appendHex unit, c ≠ '<' ∧ c ≠ '>' ∧ c ≠ '\n' := by
  have digit (n : Nat) : (n % 16).digitChar ≠ '<' ∧ (n % 16).digitChar ≠ '>' ∧ (n % 16).digitChar ≠ '\n' :=
    digitChar_plain (Nat.mod_lt _ (by decide))
  unfold appendHex toHex16Bit
  simp only [List.forall_mem_cons, List.not_mem_nil, false_imp_iff, implies_true, and_true]
  exact ⟨by decide, by decide, digit _, digit _, digit _, digit _⟩

theorem readHex_toHex16Bit {unit : Nat} (small : unit < 0x10000) (rest : Text) :
    readHex 4 0 (toHex16Bit unit ++ rest) = some (unit, rest) := by
  have digit (n : Nat) : hexValue (n % 16).digitChar = some (n % 16) := hexValue_digitChar (Nat.mod_lt _ (by decide))
  simp only [toHex16Bit, List.cons_append, List.nil_append, readHex, digit, Option.bind_some]
  apply congrArg some
  apply Prod.ext
  · dsimp only
    omega
  · rfl

theorem units_small (c : Char) : ∀ unit ∈ units c, unit < 0x10000 := by
  have bounded : c.toNat < 0x110000 := by
    have valid := c.valid
    unfold Char.toNat
    unfold UInt32.isValidChar Nat.isValidChar at valid
    omega
  unfold units
  split
  · rw [List.forall_mem_singleton]
    assumption
  · intro unit member
    rcases List.mem_cons.mp member with rfl | second
    · omega
    · rw [List.mem_singleton] at second
      omega

/-- The ways in which a character gets into a literal. -/
inductive Coded (c : Char) : Text → Prop where
  | escape (sign : Char) (means : escaped sign = units c) (single : sign ≠ 'u' ∧ sign ≠ 'x' ∧ sign.isDigit = false)
    (angled : sign = '<' → c = '<') (line : sign ≠ '\n') : Coded c ['\\', sign]
  | hex (other : c ≠ '<') : Coded c ((units c).flatMap appendHex)
  | plain (ascii : 0x20 ≤ c.toNat ∧ c.toNat < 0x80) (other : c ≠ '"' ∧ c ≠ '\\' ∧ c ≠ '<' ∧ c ≠ '>') : Coded c [c]

theorem units_ascii {c : Char} (small : c.toNat < 0x10000) : units c = [c.toNat] := if_pos small

theorem coded (c : Char) : Coded c (angles (quotedChar c)) := by
  have control (sign : Char) (n : Nat) (same : c.toNat = n) (means : escaped sign = [n])
      (single : sign ≠ 'u' ∧ sign ≠ 'x' ∧ sign.isDigit = false) (other : sign ≠ '<' ∧ sign ≠ '>' ∧ sign ≠ '\n')
      (small : n < 0x10000) : Coded c (angles ['\\', sign]) := by
    rw [angles_cons (by decide), angles_cons ⟨other.1, other.2.1⟩]
    refine .escape sign ?_ single (fun less => absurd less other.1) other.2.2
    rw [means, units_ascii (by omega), same]
  unfold quotedChar
  split_ifs with quote backslash backspace feed line carriage tab coding
  · exact control '"' 34 (by rw [quote]; rfl) rfl (by decide) (by decide) (by decide)
  · exact control '\\' 92 (by rw [backslash]; rfl) rfl (by decide) (by decide) (by decide)
  · exact control 'b' 8 backspace rfl (by decide) (by decide) (by decide)
  · exact control 'f' 12 feed rfl (by decide) (by decide) (by decide)
  · exact control 'n' 10 (by rw [line]; rfl) rfl (by decide) (by decide) (by decide)
  · exact control 'r' 13 (by rw [carriage]; rfl) rfl (by decide) (by decide) (by decide)
  · exact control 't' 9 (by rw [tab]; rfl) rfl (by decide) (by decide) (by decide)
  · have plain : ∀ sign ∈ (units c).flatMap appendHex, sign ≠ '<' ∧ sign ≠ '>' := by
      intro sign member
      obtain ⟨unit, -, digit⟩ := List.mem_flatMap.mp member
      exact ⟨(appendHex_plain unit sign digit).1, (appendHex_plain unit sign digit).2.1⟩
    rw [angles_of_plain plain]
    apply Coded.hex
    intro less
    rw [less] at coding
    revert coding
    decide
  · by_cases less : c = '<'
    · rw [less]
      exact .escape '<' rfl (by decide) (fun _ => rfl) (by decide)
    · by_cases greater : c = '>'
      · rw [greater]
        exact .escape '>' rfl (by decide) (fun same => absurd same (by decide)) (by decide)
      · rw [angles_cons ⟨less, greater⟩]
        exact .plain (by omega) ⟨quote, backslash, less, greater⟩

/-- No line ends in a string. -/
theorem newline_quotedChar (c : Char) : '\n' ∉ quotedChar c := by
  unfold quotedChar
  split_ifs with quote backslash backspace feed line carriage tab coding
  all_goals try decide
  · intro member
    obtain ⟨unit, -, digit⟩ := List.mem_flatMap.mp member
    exact (appendHex_plain unit '\n' digit).2.2 rfl
  · intro member
    exact line (List.mem_singleton.mp member).symm

/-! ## Strings are read as they are -/

theorem readChars_escape {sign : Char} (single : sign ≠ 'u' ∧ sign ≠ 'x' ∧ sign.isDigit = false) (turns : Nat)
    (rest : Text) : readChars (turns + 1) ('\\' :: sign :: rest) =
      (readChars turns rest).map fun read => (escaped sign ++ read.1, read.2) := by
  simp [readChars, readEscape, single]

theorem readChars_appendHex {unit : Nat} (small : unit < 0x10000) (turns : Nat) (rest : Text) :
    readChars (turns + 1) (appendHex unit ++ rest) =
      (readChars turns rest).map fun read => (unit :: read.1, read.2) := by
  have hex := readHex_toHex16Bit small rest
  simp [appendHex, readChars, readEscape, hex]

theorem readChars_hex (text : List Nat) (small : ∀ unit ∈ text, unit < 0x10000) (turns : Nat) (rest : Text) :
    readChars (turns + text.length) (text.flatMap appendHex ++ rest) =
      (readChars turns rest).map fun read => (text ++ read.1, read.2) := by
  induction text with
  | nil => simp
  | cons unit others ih =>
    obtain ⟨first, tail⟩ := List.forall_mem_cons.mp small
    rw [List.length_cons, ← Nat.add_assoc, List.flatMap_cons, List.append_assoc, readChars_appendHex first, ih tail,
      Option.map_map]
    rfl

theorem readChars_plain {c : Char} (ascii : 0x20 ≤ c.toNat) (other : c ≠ '"' ∧ c ≠ '\\') (turns : Nat) (rest : Text) :
    readChars (turns + 1) (c :: rest) = (readChars turns rest).map fun read => (units c ++ read.1, read.2) := by
  have line : c ≠ '\n' := by
    intro same
    rw [same] at ascii
    revert ascii
    decide
  have carriage : c ≠ '\r' := by
    intro same
    rw [same] at ascii
    revert ascii
    decide
  simp [readChars, other, line, carriage]

theorem readChars_quoted (text : Text) (rest : Text) (turns : Nat)
    (enough : (angles (text.flatMap quotedChar)).length < turns) :
    readChars turns (angles (text.flatMap quotedChar) ++ '"' :: rest) = some (unitsOf text, rest) := by
  induction text generalizing turns with
  | nil =>
    obtain ⟨turns, rfl⟩ := Nat.exists_eq_add_of_lt enough
    rfl
  | cons c others ih =>
    rw [List.flatMap_cons, angles_append, List.length_append] at enough
    rw [List.flatMap_cons, angles_append, List.append_assoc, unitsOf, List.flatMap_cons]
    have step (used : Nat) (within : used ≤ (angles (quotedChar c)).length) (turn : ∀ turns' text',
        readChars (turns' + used) (angles (quotedChar c) ++ text') =
          (readChars turns' text').map fun read => (units c ++ read.1, read.2)) :
        readChars turns (angles (quotedChar c) ++ (angles (others.flatMap quotedChar) ++ '"' :: rest)) =
          some (units c ++ others.flatMap units, rest) := by
      obtain ⟨turns', rfl⟩ := Nat.exists_eq_add_of_le (show used ≤ turns by omega)
      rw [Nat.add_comm, turn, ih turns' (by omega)]
      rfl
    have shape := coded c
    revert step
    generalize angles (quotedChar c) = written at shape
    intro step
    cases shape with
    | escape sign means single angled line =>
      apply step 1 (by simp)
      intro turns' text'
      rw [← means]
      exact readChars_escape single turns' text'
    | hex other =>
      apply step (units c).length
      · have long : ∀ length ∈ (units c).map (fun unit => (appendHex unit).length), 1 ≤ length := by
          intro length member
          obtain ⟨unit, -, rfl⟩ := List.mem_map.mp member
          exact Nat.succ_pos _
        have counted := List.length_le_sum_of_one_le _ long
        rw [List.length_map] at counted
        rwa [List.length_flatMap]
      · intro turns' text'
        exact readChars_hex (units c) (units_small c) turns' text'
    | plain ascii other =>
      apply step 1 (by simp)
      intro turns' text'
      exact readChars_plain ascii.1 ⟨other.1, other.2.1⟩ turns' text'

theorem readString_quoted (text rest : Text) :
    readString (angles (text.flatMap quotedChar) ++ '"' :: rest) = some (unitsOf text, rest) := by
  apply readChars_quoted
  rw [List.length_append, List.length_cons]
  omega

theorem angles_valueToQuotedString (text : Text) :
    angles (valueToQuotedString text) = '"' :: angles (text.flatMap quotedChar) ++ ['"'] := by
  rw [valueToQuotedString, List.cons_append, angles_cons (by decide), angles_append]
  rfl

/-! ## Numbers are read up to their precision -/

/-- No number goes on here. -/
def Ends (rest : Text) : Prop := ∀ c ∈ rest.head?, isNumeric c = false

theorem takeWhile_numeric {text rest : Text} (numeric : ∀ c ∈ text, isNumeric c = true) (ends : Ends rest) :
    (text ++ rest).takeWhile isNumeric = text ∧ (text ++ rest).dropWhile isNumeric = rest := by
  have stops : rest.takeWhile isNumeric = [] ∧ rest.dropWhile isNumeric = rest := by
    cases rest with
    | nil => exact ⟨rfl, rfl⟩
    | cons c others =>
      have stop := ends c rfl
      rw [List.takeWhile_cons, List.dropWhile_cons, stop]
      exact ⟨rfl, rfl⟩
  rw [List.takeWhile_append_of_pos numeric, List.dropWhile_append_of_pos numeric, stops.1, stops.2, List.append_nil]
  exact ⟨rfl, rfl⟩

/-- A token of numeric characters is read as a number. -/
theorem readValue_numeric {R : Type} (read : Text → Option R) {text rest : Text} (some : text ≠ [])
    (numeric : ∀ c ∈ text, isNumeric c = true) (ends : Ends rest) (turns : Nat) :
    readValue read (turns + 1) (text ++ rest) = (number read text).map fun value => (value, rest) := by
  obtain ⟨taken, dropped⟩ := takeWhile_numeric numeric ends
  cases text with
  | nil => exact absurd rfl some
  | cons first others =>
    have kind := numeric first List.mem_cons_self
    have other (sign : Char) (not : isNumeric sign = false) : first ≠ sign := by
      intro same
      rw [same, not] at kind
      cases kind
    have word (sign : Char) (letters : Text) (not : isNumeric sign = false) :
        ¬sign :: letters <+: first :: (others ++ rest) :=
      fun front => other sign not (List.cons_prefix_cons.mp front).1.symm
    have null : ¬"null".toList <+: first :: (others ++ rest) := word 'n' ['u', 'l', 'l'] rfl
    have true : ¬"true".toList <+: first :: (others ++ rest) := word 't' ['r', 'u', 'e'] rfl
    have false : ¬"false".toList <+: first :: (others ++ rest) := word 'f' ['a', 'l', 's', 'e'] rfl
    rw [List.cons_append, readValue, if_neg (other '"' rfl), if_neg (other '[' rfl), if_neg (other '{' rfl), if_neg null,
      if_neg true, if_neg false, readNumber, ← List.cons_append, taken, dropped]

theorem digitsValue_toDigits (n : Nat) : digitsValue (Nat.toDigits 10 n) = some n := by
  have digits : (Nat.toDigits 10 n).all Char.isDigit = true :=
    List.all_eq_true.mpr fun c member => Nat.isDigit_of_mem_toDigits (by decide) (by decide) member
  rw [digitsValue, if_pos ⟨Nat.toDigits_ne_nil, digits⟩, Nat.ofDigitChars_ten_toDigits]

theorem number_valueToString {R : Type} (read : Text → Option R) (n : Int) :
    number read (valueToString n) = some (.integer (nearestInt n)) := by
  unfold number valueToString nearestInt
  by_cases negative : n < 0
  · rw [if_pos negative, List.head?_cons, if_pos rfl, List.tail_cons, digitsValue_toDigits, Int.sign_eq_neg_one_of_neg negative]
    simp
  · have first : (Nat.toDigits 10 n.natAbs).head? ≠ some '-' := by
      intro head
      have digit := Nat.isDigit_of_mem_toDigits (b := 10) (by decide) (by decide) (List.mem_of_mem_head? head)
      revert digit
      decide
    rw [if_neg negative, if_neg first, digitsValue_toDigits]
    rcases Int.lt_or_eq_of_le (not_lt.mp negative) with positive | zero
    · rw [Int.sign_eq_one_of_pos positive]
      simp
    · rw [← zero]
      rfl

theorem numeric_valueToString (n : Int) : ∀ c ∈ valueToString n, isNumeric c = true := by
  have digits : ∀ c ∈ Nat.toDigits 10 n.natAbs, isNumeric c = true := by
    intro c member
    have digit : c.isDigit = true := Nat.isDigit_of_mem_toDigits (by decide) (by decide) member
    simp [isNumeric, digit]
  unfold valueToString
  split
  · exact List.forall_mem_cons.mpr ⟨rfl, digits⟩
  · exact digits

theorem number_real (number : reals.R) : Script.number reals.read (reals.text number) = some (.real number) := by
  obtain ⟨mark, member, marked⟩ := reals.marked number
  have notDigits (token : Text) (inside : mark ∈ token) : digitsValue token = none := by
    apply if_neg
    intro all
    have digit := List.all_eq_true.mp all.2 mark inside
    rcases marked with rfl | rfl <;> revert digit <;> decide
  unfold Script.number
  rw [notDigits _ member]
  have tail (signed : (reals.text number).head? = some '-') : digitsValue (reals.text number).tail = none := by
    apply notDigits
    cases written : reals.text number with
    | nil =>
      rw [written] at signed
      cases signed
    | cons first others =>
      rw [written] at signed member
      cases signed
      rcases List.mem_cons.mp member with same | inside
      · rcases marked with rfl | rfl <;> cases same
      · exact inside
  by_cases signed : (reals.text number).head? = some '-'
  · rw [if_pos signed, tail signed]
    simp [reals.read_text]
  · rw [if_neg signed]
    simp [reals.read_text]

/-! ## Literals are read -/

mutual

/-- What a script makes of the literal of a value. -/
def Json.made {R : Type} : Json R → Value R
  | .null => .null
  | .bool value => .bool value
  | .integer number => .integer (nearestInt number)
  | .real number => .real number
  | .string text => .string (unitsOf text)
  | .array items => .array items.made
  | .object members => .ofDefinitions members.made

def Items.made {R : Type} : Items R → List (Value R)
  | .nil => []
  | .cons item rest => item.made :: rest.made

def Members.made {R : Type} : Members R → List (List Nat × Value R)
  | .nil => []
  | .cons name value rest => (unitsOf name, value.made) :: rest.made

end

theorem head_valueToString (n : Int) : ∃ c text, valueToString n = c :: text := by
  unfold valueToString
  split
  · exact ⟨_, _, rfl⟩
  · cases digits : Nat.toDigits 10 n.natAbs with
    | nil => exact absurd digits Nat.toDigits_ne_nil
    | cons c text => exact ⟨c, text, rfl⟩

/-- No value begins with the end of an array. -/
theorem head_writeValue (value : Json reals.R) :
    ∃ c text, value.writeValue reals = c :: text ∧ c ≠ '<' ∧ c ≠ '>' ∧ c ≠ ']' := by
  have numeric {c : Char} (kind : isNumeric c = true) : c ≠ '<' ∧ c ≠ '>' ∧ c ≠ ']' := by
    refine ⟨?_, ?_, ?_⟩ <;> intro same <;> rw [same] at kind <;> cases kind
  cases value with
  | null => exact ⟨'n', "ull".toList, rfl, by decide⟩
  | bool value =>
    cases value with
    | true => exact ⟨'t', "rue".toList, rfl, by decide⟩
    | false => exact ⟨'f', "alse".toList, rfl, by decide⟩
  | integer number =>
    obtain ⟨c, text, written⟩ := head_valueToString number
    have kind := numeric_valueToString number.val
    rw [written] at kind
    exact ⟨c, text, written, numeric (kind c List.mem_cons_self)⟩
  | real number =>
    obtain ⟨mark, member, -⟩ := reals.marked number
    obtain ⟨c, text, written⟩ := List.exists_cons_of_ne_nil (List.ne_nil_of_mem member)
    have kind := reals.numeric number
    rw [written] at kind
    exact ⟨c, text, written, numeric (kind c List.mem_cons_self)⟩
  | string text => exact ⟨'"', _, rfl, by decide⟩
  | array items => exact ⟨'[', _, rfl, by decide⟩
  | object members => exact ⟨'{', _, rfl, by decide⟩

section
variable {reals}

theorem numeric_plain {text : Text} (numeric : ∀ c ∈ text, isNumeric c = true) : ∀ c ∈ text, c ≠ '<' ∧ c ≠ '>' := by
  intro c member
  have kind := numeric c member
  constructor <;> intro same <;> rw [same] at kind <;> cases kind

theorem writeItems_cons (item : Json reals.R) {others : Items reals.R} (more : others ≠ .nil) :
    (Items.cons item others).writeItems reals = item.writeValue reals ++ ',' :: others.writeItems reals := by
  rw [Items.writeItems]
  exact more

theorem writeMembers_cons (name : Text) (value : Json reals.R) {others : Members reals.R} (more : others ≠ .nil) :
    (Members.cons name value others).writeMembers reals =
      valueToQuotedString name ++ ':' :: value.writeValue reals ++ ',' :: others.writeMembers reals := by
  rw [Members.writeMembers]
  exact more

theorem head_writeItems {items : Items reals.R} (filled : items ≠ .nil) (rest : Text) :
    (angles (items.writeItems reals) ++ ']' :: rest).head? ≠ some ']' := by
  cases items with
  | nil => exact absurd rfl filled
  | cons item others =>
    obtain ⟨c, text, head, less, greater, close⟩ := head_writeValue reals item
    have other : Option.some c ≠ Option.some ']' := fun same => close (Option.some.inj same)
    by_cases last : others = .nil
    · rw [last, Items.writeItems, head, angles_cons ⟨less, greater⟩]
      exact other
    · rw [writeItems_cons item last, head, List.cons_append, angles_cons ⟨less, greater⟩]
      exact other

theorem angles_member (name : Text) (value : Json reals.R) (text : Text) :
    angles (valueToQuotedString name ++ ':' :: value.writeValue reals) ++ text =
      '"' :: (angles (name.flatMap quotedChar) ++ '"' :: ':' :: (angles (value.writeValue reals) ++ text)) := by
  rw [angles_append, angles_valueToQuotedString, angles_cons (by decide)]
  simp

theorem angles_members (name : Text) (value : Json reals.R) {others : Members reals.R} (more : others ≠ .nil)
    (rest : Text) : angles ((Members.cons name value others).writeMembers reals) ++ rest =
      '"' :: (angles (name.flatMap quotedChar) ++ '"' :: ':' :: (angles (value.writeValue reals) ++
        ',' :: (angles (others.writeMembers reals) ++ rest))) := by
  rw [writeMembers_cons name value more, angles_append, List.append_assoc, angles_member, angles_cons (by decide)]
  rfl

theorem head_writeMembers {members : Members reals.R} (filled : members ≠ .nil) (rest : Text) :
    (angles (members.writeMembers reals) ++ '}' :: rest).head? ≠ some '}' := by
  cases members with
  | nil => exact absurd rfl filled
  | cons name value others =>
    by_cases last : others = .nil
    · rw [last, Members.writeMembers, angles_member]
      exact fun same => by cases same
    · rw [angles_members name value last]
      exact fun same => by cases same

theorem ends_of_head {c : Char} (other : isNumeric c = false) (rest : Text) : Ends (c :: rest) := by
  intro sign head
  cases head
  exact other

mutual

theorem readValue_literal (value : Json reals.R) (rest : Text) (ends : Ends rest) (turns : Nat)
    (enough : 2 * (angles (value.writeValue reals) ++ rest).length < turns) :
    readValue reals.read turns (angles (value.writeValue reals) ++ rest) = some (value.made, rest) := by
  obtain ⟨turns, rfl⟩ := Nat.exists_eq_add_of_lt (Nat.zero_lt_of_lt enough)
  rw [Nat.zero_add] at enough ⊢
  cases value with
  | null => rfl
  | bool value => cases value <;> rfl
  | integer number =>
    obtain ⟨c, text, written⟩ := head_valueToString number
    have numeric := numeric_valueToString number
    rw [Json.writeValue, angles_of_plain (numeric_plain numeric),
      readValue_numeric _ (by rw [written]; exact List.cons_ne_nil _ _) numeric ends, number_valueToString]
    rfl
  | real number =>
    obtain ⟨mark, member, -⟩ := reals.marked number
    rw [Json.writeValue, angles_of_plain (numeric_plain (reals.numeric number)),
      readValue_numeric _ (List.ne_nil_of_mem member) (reals.numeric number) ends, number_real]
    rfl
  | string text =>
    rw [Json.writeValue, angles_valueToQuotedString, List.append_assoc, List.cons_append, readValue, if_pos rfl]
    exact congrArg (Option.map _) (readString_quoted text rest)
  | array items =>
    have written : angles ((Json.array items).writeValue reals) ++ rest =
        '[' :: (angles (items.writeItems reals) ++ ']' :: rest) := by
      rw [Json.writeValue, List.cons_append, angles_cons (by decide), angles_append, List.cons_append, List.append_assoc]
      rfl
    rw [written] at enough ⊢
    rw [List.length_cons] at enough
    by_cases none : items = .nil
    · rw [none]
      rfl
    · rw [readValue, if_neg (by decide), if_pos rfl, if_neg (head_writeItems none rest),
        readElements_literal items none rest turns (by omega)]
      rfl
  | object members =>
    have written : angles ((Json.object members).writeValue reals) ++ rest =
        '{' :: (angles (members.writeMembers reals) ++ '}' :: rest) := by
      rw [Json.writeValue, List.cons_append, angles_cons (by decide), angles_append, List.cons_append, List.append_assoc]
      rfl
    rw [written] at enough ⊢
    rw [List.length_cons] at enough
    by_cases none : members = .nil
    · rw [none]
      rfl
    · rw [readValue, if_neg (by decide), if_neg (by decide), if_pos rfl, if_neg (head_writeMembers none rest),
        readProperties_literal members none rest turns (by omega)]
      rfl

theorem readElements_literal (items : Items reals.R) (filled : items ≠ .nil) (rest : Text) (turns : Nat)
    (enough : 2 * (angles (items.writeItems reals) ++ ']' :: rest).length + 1 < turns) :
    readElements reals.read turns (angles (items.writeItems reals) ++ ']' :: rest) = some (items.made, rest) := by
  obtain ⟨turns, rfl⟩ := Nat.exists_eq_add_of_lt (Nat.zero_lt_of_lt enough)
  rw [Nat.zero_add] at enough ⊢
  cases items with
  | nil => exact absurd rfl filled
  | cons item others =>
    by_cases last : others = .nil
    · rw [last, Items.writeItems] at enough ⊢
      rw [readElements, readValue_literal item (']' :: rest) (ends_of_head rfl rest) turns (by omega)]
      rfl
    · have written : angles ((Items.cons item others).writeItems reals) ++ ']' :: rest =
          angles (item.writeValue reals) ++ ',' :: (angles (others.writeItems reals) ++ ']' :: rest) := by
        rw [writeItems_cons item last, angles_append, angles_cons (by decide), List.append_assoc]
        rfl
      rw [written] at enough ⊢
      rw [readElements, readValue_literal item _ (ends_of_head rfl _) turns (by omega)]
      rw [List.length_append, List.length_cons] at enough
      have tail := readElements_literal others last rest turns (by omega)
      simp only [Option.bind_some, List.head?_cons, List.tail_cons, tail]
      rfl

theorem readProperties_literal (members : Members reals.R) (filled : members ≠ .nil) (rest : Text) (turns : Nat)
    (enough : 2 * (angles (members.writeMembers reals) ++ '}' :: rest).length + 1 < turns) :
    readProperties reals.read turns (angles (members.writeMembers reals) ++ '}' :: rest) =
      some (members.made, rest) := by
  obtain ⟨turns, rfl⟩ := Nat.exists_eq_add_of_lt (Nat.zero_lt_of_lt enough)
  rw [Nat.zero_add] at enough ⊢
  cases members with
  | nil => exact absurd rfl filled
  | cons name value others =>
    by_cases last : others = .nil
    · rw [last, Members.writeMembers, angles_member] at enough ⊢
      simp only [List.length_cons, List.length_append] at enough
      have first := readValue_literal value ('}' :: rest) (ends_of_head rfl rest) turns (by simp; omega)
      rw [readProperties, List.head?_cons, if_pos rfl, List.tail_cons, readString_quoted]
      simp only [Option.bind_some, List.head?_cons, List.tail_cons, first]
      rfl
    · rw [angles_members name value last] at enough ⊢
      simp only [List.length_cons, List.length_append] at enough
      have first := readValue_literal value (',' :: (angles (others.writeMembers reals) ++ '}' :: rest))
        (ends_of_head rfl _) turns (by simp; omega)
      have tail := readProperties_literal others last rest turns (by simp; omega)
      rw [readProperties, List.head?_cons, if_pos rfl, List.tail_cons, readString_quoted]
      simp only [Option.bind_some, List.head?_cons, List.tail_cons, first, tail]
      rfl

end

/-- A script reads the whole literal. -/
theorem readLiteral_literal (value : Json reals.R) : readLiteral reals.read (literal reals value) = some value.made := by
  have whole := readValue_literal value [] (fun c none => by cases none) (2 * (literal reals value).length + 1) (by
    rw [List.append_nil]
    exact Nat.lt_succ_self _)
  rw [List.append_nil] at whole
  unfold readLiteral
  unfold literal at whole ⊢
  rw [whole]
  rfl

end

end

end Mantids.RPC.InsertedValues
