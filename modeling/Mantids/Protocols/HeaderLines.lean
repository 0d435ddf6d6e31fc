import Mantids.Protocols.MimeHeader

/-! What the lines of a header block say: read back line by line, a block has the fields it was written from. -/

set_option autoImplicit false

namespace Mantids.MIME

open Memory Memory.Streams Library

/-! ## Options -/

namespace MIMEHeaderOption

section
variable (option : MIMEHeaderOption) (varName varValue : Bytes)

/-- A sub value is stored or it is not. -/
theorem addSubVar_cases (option : MIMEHeaderOption) (varName varValue : Bytes) :
    option.addSubVar varName varValue = option ∨
      option.addSubVar varName varValue =
        { option with
          curHeaderOptSize := option.curHeaderOptSize + (varName.length + varValue.length)
          subVar := option.subVar.insert varName varValue } := by
  unfold addSubVar
  split
  · exact .inl rfl
  split
  · exact .inl rfl
  split
  · exact .inl rfl
  split
  · exact .inl rfl
  · exact .inr rfl

/-- A sub value that is within the limits is stored. -/
theorem addSubVar_room (some : ¬(varName = [] ∧ varValue = []))
    (count : option.subVar.entries.length < option.maxSubOptionsCount)
    (size : varName.length + varValue.length + option.curHeaderOptSize ≤ option.maxHeaderOptSize)
    (name : isPermited7bitCharset varName = true) (value : isPermited7bitCharset varValue = true) :
    (option.addSubVar varName varValue).subVar = option.subVar.insert varName varValue := by
  have permitted : ¬(!isPermited7bitCharset varName || !isPermited7bitCharset varValue) = true := by
    rw [name, value]
    decide
  unfold addSubVar
  rw [if_neg some, if_neg (Nat.not_le.mpr count), if_neg (Nat.not_lt.mpr size), if_neg permitted]

/-- What the parts of a value leave of an option. -/
structure Kept (option option' : MIMEHeaderOption) : Prop where
  allocation : option'.allocation = option.allocation
  origName : option'.origName = option.origName
  origValue : option'.origValue = option.origValue

theorem kept_addPart (restore : Bytes → Bytes) (option : MIMEHeaderOption) (value : Bytes) :
    Kept option (option.addPart restore value) := by
  have stored : ∀ varName varValue, Kept option (option.addSubVar varName varValue) := by
    intro varName varValue
    rcases addSubVar_cases option varName varValue with same | same
    · rw [same]
      exact ⟨rfl, rfl, rfl⟩
    · rw [same]
      exact ⟨rfl, rfl, rfl⟩
  unfold addPart
  split
  · exact stored _ _
  · exact stored _ _

theorem kept_foldl_addPart (restore : Bytes → Bytes) (values : List Bytes) (option : MIMEHeaderOption) :
    Kept option (values.foldl (addPart restore) option) := by
  induction values generalizing option with
  | nil => exact ⟨rfl, rfl, rfl⟩
  | cons value rest ih =>
    have first := kept_addPart restore option value
    have later := ih (option.addPart restore value)
    exact ⟨later.1.trans first.1, later.2.trans first.2, later.3.trans first.3⟩

variable (secureReplace : RandomString) (strName : Bytes)

@[simp] theorem allocation_parseSubValues : (option.parseSubValues secureReplace strName).allocation = option.allocation :=
  (kept_foldl_addPart _ _ { option with origValue := strName }).allocation

@[simp] theorem origName_parseSubValues : (option.parseSubValues secureReplace strName).origName = option.origName :=
  (kept_foldl_addPart _ _ { option with origValue := strName }).origName

@[simp] theorem origValue_parseSubValues : (option.parseSubValues secureReplace strName).origValue = strName :=
  (kept_foldl_addPart _ _ { option with origValue := strName }).origValue

end

/-! ## Values without quotation marks -/

theorem mem_of_mem_trim {text : Bytes} {byte : UInt8} (member : byte ∈ trim text) : byte ∈ text := by
  unfold trim at member
  rw [List.mem_reverse] at member
  have back := List.mem_reverse.mp ((List.dropWhile_sublist _).subset member)
  exact (List.dropWhile_sublist _).subset back

theorem takeOut_plain (secureReplace : RandomString) (turns : Nat) {text : Bytes} (plain : quotation ∉ text) :
    takeOut secureReplace turns [] text = ([], text) := by
  have none : text.dropWhile (fun byte => decide (byte ≠ quotation)) = [] := by
    rw [List.dropWhile_eq_nil_iff]
    intro byte member
    refine decide_eq_true fun same => plain ?_
    rwa [← same]
  cases turns with
  | zero => rfl
  | succ turns => simp only [takeOut, staticText, none]

theorem replaceBack_nil (secureReplace : RandomString) : replaceBack secureReplace [] = id := by
  funext text
  rfl

/-- Nothing is taken out of a value without quotation marks. -/
theorem parseSubValues_plain (option : MIMEHeaderOption) (secureReplace : RandomString) {strName : Bytes}
    (plain : quotation ∉ strName) :
    option.parseSubValues secureReplace strName =
      { (HTTP.split (· = semicolon) (trim strName)).foldl (addPart id) { option with origValue := strName } with
        value := trim (trim ((HTTP.split (· = semicolon) (trim strName)).headD [])) } := by
  unfold parseSubValues
  rw [takeOut_plain secureReplace _ fun member => plain (mem_of_mem_trim member)]
  simp only [replaceBack_nil, id]

/-- The value that is made of a text. -/
def optionValue (secureReplace : RandomString) (strName : Bytes) : Bytes :=
  ((new 0).parseSubValues secureReplace strName).value

/-- An option that `add` has made of a name and a value. -/
def Made (name value : Bytes) (option : MIMEHeaderOption) : Prop :=
  ∃ allocation secureReplace, option = { new allocation with origName := name }.parseSubValues secureReplace value

theorem Made.origName {name value : Bytes} {option : MIMEHeaderOption} (made : Made name value option) :
    option.origName = name := by
  obtain ⟨allocation, secureReplace, rfl⟩ := made
  exact origName_parseSubValues _ _ _

theorem Made.origValue {name value : Bytes} {option : MIMEHeaderOption} (made : Made name value option) :
    option.origValue = value := by
  obtain ⟨allocation, secureReplace, rfl⟩ := made
  exact origValue_parseSubValues _ _ _

end MIMEHeaderOption

/-! ## Fields -/

/-- What a value may be made of. -/
def PlainText (text : Bytes) : Prop := ∀ byte ∈ text, byte ≠ 13 ∧ byte ≠ 0

theorem PlainText.append {text rest : Bytes} (first : PlainText text) (second : PlainText rest) :
    PlainText (text ++ rest) := by
  intro byte member
  rcases List.mem_append.mp member with inFirst | inSecond
  · exact first byte inFirst
  · exact second byte inSecond

theorem plainText_if {condition : Prop} [Decidable condition] {text : Bytes} (plain : PlainText text) :
    PlainText (if condition then text else []) := by
  split
  · exact plain
  · nofun

theorem plainText_decimal (number : Nat) : PlainText (decimal number) := by
  unfold decimal PlainText
  split
  · decide
  · intro byte member
    obtain ⟨digit, inside, rfl⟩ := List.mem_map.mp member
    have small := Nat.digits_lt_base (by decide) (List.mem_reverse.mp inside)
    have all : ∀ digit : Fin 10, PlainText [48 + UInt8.ofNat digit] := by
      unfold PlainText
      decide
    exact all ⟨digit, small⟩ _ (.head _)

/-- A name and a value that a line of their own can carry. -/
structure ProperField (name value : Bytes) : Prop where
  begins : ∃ first rest, name = first :: rest ∧ first ≠ 32 ∧ first ≠ 9
  name : ∀ byte ∈ name, byte ≠ 58 ∧ byte ≠ 13
  value : PlainText value

theorem cString_eq_self {text : Bytes} (whole : ∀ byte ∈ text, byte ≠ 0) : HTTP.cString text = text := by
  unfold HTTP.cString
  rw [List.takeWhile_eq_self_iff]
  intro byte member
  exact decide_eq_true (whole byte member)

namespace MIMESubHeader

section
variable (random : Nat → RandomString)

theorem parseOptionValue_field (header : MIMESubHeader) {name value : Bytes} (proper : ProperField name value) :
    header.parseOptionValue random (name ++ [58, 32] ++ value) = (header.add random name value 0).2 := by
  obtain ⟨first, rest, begins, space, tab⟩ := proper.begins
  have absent : 58 ∉ name := fun member => (proper.name 58 member).1 rfl
  have found : occurrence [58, 32] (name ++ [58, 32] ++ value) = some name.length := by
    rw [List.append_assoc]
    exact occurrence_of_notMem absent [32] value
  have starts : ¬((name ++ [58, 32] ++ value).head? = some 32 ∨ (name ++ [58, 32] ++ value).head? = some 9) := by
    rw [begins]
    simp [space, tab]
  have behind : (name ++ [58, 32] ++ value).drop (name.length + 2) = value := List.drop_left' (by simp)
  unfold parseOptionValue
  rw [if_neg starts, found]
  dsimp only
  rw [behind, cString_eq_self fun byte member => (proper.value byte member).2, List.append_assoc, List.take_left' rfl]

theorem add_full {header : MIMESubHeader} (name value : Bytes)
    (full : header.headers.entries.length = header.maxOptions) : header.add random name value 0 = (false, header) := by
  unfold add
  rw [if_pos rfl, if_pos full]

theorem add_room {header : MIMESubHeader} (name value : Bytes)
    (room : header.headers.entries.length ≠ header.maxOptions) :
    ∃ option, MIMEHeaderOption.Made name value option ∧
      (header.add random name value 0).2.headers = header.headers.insert (HTTP.toUpper name) option ∧
      (header.add random name value 0).2.maxOptions = header.maxOptions := by
  refine ⟨{ MIMEHeaderOption.new header.allocated with origName := name }.parseSubValues (random header.drawn) value,
    ⟨_, _, rfl⟩, ?_⟩
  unfold add
  rw [if_pos rfl, if_neg room]
  refine ⟨?_, rfl⟩
  simp [MIMEHeaderOption.getUpperName]

@[simp] theorem maxOptions_add (header : MIMESubHeader) (name value : Bytes) :
    (header.add random name value 0).2.maxOptions = header.maxOptions := by
  by_cases full : header.headers.entries.length = header.maxOptions
  · rw [add_full random name value full]
  · obtain ⟨option, -, -, maxOptions⟩ := add_room random name value full
    exact maxOptions

@[simp] theorem maxOptions_replace (header : MIMESubHeader) (name value : Bytes) :
    (header.replace random name value).maxOptions = header.maxOptions :=
  maxOptions_add random (header.remove name) name value

/-! ## Blocks of proper fields -/

/-- No more options than there may be, each a proper field under its own name. -/
structure Proper (header : MIMESubHeader) : Prop where
  room : header.headers.entries.length ≤ header.maxOptions
  fields : ∀ entry ∈ header.headers.entries, entry.1 = HTTP.toUpper entry.2.origName ∧
    ProperField entry.2.origName entry.2.origValue

theorem Proper.add {header : MIMESubHeader} (proper : header.Proper) {name value : Bytes}
    (field : ProperField name value) : (header.add random name value 0).2.Proper := by
  by_cases full : header.headers.entries.length = header.maxOptions
  · rw [add_full random name value full]
    exact proper
  · obtain ⟨option, made, headers, maxOptions⟩ := add_room random name value full
    have room := proper.room
    refine ⟨?_, ?_⟩
    · rw [headers, maxOptions, Multimap.length_insert]
      omega
    · intro entry member
      rw [headers] at member
      rcases Multimap.mem_insert.mp member with rfl | old
      · rw [made.origName, made.origValue]
        exact ⟨rfl, field⟩
      · exact proper.fields entry old

theorem Proper.remove {header : MIMESubHeader} (proper : header.Proper) (name : Bytes) : (header.remove name).Proper where
  room := Nat.le_trans (List.length_filter_le _ _) proper.room
  fields entry member := proper.fields entry (List.mem_filter.mp member).1

/-! ## Other names -/

theorem values_add_other (header : MIMESubHeader) {name key : Bytes} (value : Bytes) (other : key ≠ HTTP.toUpper name) :
    (header.add random name value 0).2.headers.values key = header.headers.values key := by
  by_cases full : header.headers.entries.length = header.maxOptions
  · rw [add_full random name value full]
  · obtain ⟨option, -, headers, -⟩ := add_room random name value full
    rw [headers, Multimap.values_insert, if_neg other, List.append_nil]

theorem values_remove_other (header : MIMESubHeader) {name key : Bytes} (other : key ≠ HTTP.toUpper name) :
    (header.remove name).headers.values key = header.headers.values key := by
  unfold remove
  rw [Multimap.values_erase, if_neg other]

/-! ## Read back -/

/-- The block that the lines make of an empty one. -/
def readLines (lines : List Bytes) : MIMESubHeader := lines.foldl (parseOptionValue random) new

/-- The options of one key are made of these fields. -/
def Of (fields : List (Bytes × Bytes)) (options : List MIMEHeaderOption) : Prop :=
  List.Forall₂ (fun field option => MIMEHeaderOption.Made field.1 field.2 option) fields options

theorem values_foldl_fields (fields : List (Bytes × Bytes)) {header : MIMESubHeader}
    (proper : ∀ field ∈ fields, ProperField field.1 field.2)
    (room : header.headers.entries.length + fields.length ≤ header.maxOptions) (key : Bytes) :
    ∃ options, Of (fields.filter fun field => HTTP.toUpper field.1 = key) options ∧
      ((fields.map fun field => field.1 ++ [58, 32] ++ field.2).foldl (parseOptionValue random) header).headers.values key =
        header.headers.values key ++ options := by
  induction fields generalizing header with
  | nil => exact ⟨[], .nil, (List.append_nil _).symm⟩
  | cons field rest ih =>
    rw [List.length_cons] at room
    obtain ⟨option, made, headers, maxOptions⟩ := add_room random field.1 field.2
      (Nat.ne_of_lt (by omega) : header.headers.entries.length ≠ header.maxOptions)
    obtain ⟨options, of, read⟩ := @ih (header.add random field.1 field.2 0).2
      (fun other member => proper other (.tail _ member)) (by rw [headers, maxOptions, Multimap.length_insert]; omega)
    rw [List.map_cons, List.foldl_cons, parseOptionValue_field random header (proper field List.mem_cons_self), read,
      headers, Multimap.values_insert, List.append_assoc]
    by_cases here : key = HTTP.toUpper field.1
    · refine ⟨option :: options, ?_, ?_⟩
      · rw [List.filter_cons_of_pos (by simp [here])]
        exact .cons made of
      · rw [if_pos here]
        rfl
    · refine ⟨options, ?_, ?_⟩
      · rwa [List.filter_cons_of_neg (by simp [Ne.symm here])]
      · rw [if_neg here, List.nil_append]

/-- Read back from its lines, a block has under each name options of the same texts, in the same order. -/
theorem values_readLines {header : MIMESubHeader} (proper : header.Proper) (count : header.maxOptions = 32)
    (key : Bytes) :
    Of ((header.headers.values key).map fun option => (option.origName, option.origValue))
      ((readLines random header.lines).headers.values key) := by
  have room := proper.room
  rw [count] at room
  obtain ⟨options, of, read⟩ := values_foldl_fields random
    (header.headers.entries.map fun entry => (entry.2.origName, entry.2.origValue)) (by
      intro field member
      obtain ⟨entry, here, rfl⟩ := List.mem_map.mp member
      exact (proper.fields entry here).2) (by
      rw [List.length_map]
      exact Nat.le_trans (Nat.le_of_eq (Nat.zero_add _)) room : new.headers.entries.length + _ ≤ new.maxOptions) key
  have lines : (header.headers.entries.map fun entry => (entry.2.origName, entry.2.origValue)).map
      (fun field => field.1 ++ [58, 32] ++ field.2) = header.lines := by
    rw [List.map_map]
    rfl
  have same : (header.headers.entries.map fun entry => (entry.2.origName, entry.2.origValue)).filter
      (fun field => HTTP.toUpper field.1 = key) =
        (header.headers.values key).map fun option => (option.origName, option.origValue) := by
    rw [List.filter_map, Multimap.values, List.map_map]
    congr 1
    apply List.filter_congr
    intro entry member
    rw [(proper.fields entry member).1]
    rfl
  rw [lines] at read
  rw [same] at of
  rw [readLines, read]
  exact of

end

end MIMESubHeader

end Mantids.MIME
