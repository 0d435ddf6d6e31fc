import Mantids.Protocols.HeaderBlock

/-! What a program puts into a header block (`add`, `replace`), and what a reader makes of the bytes that are written
of it. -/

set_option autoImplicit false

namespace Mantids.MIME

open Memory Memory.Streams Library

/-- A name and its value. -/
abbrev Field := Bytes × Bytes

/-- The line of a field. -/
def Field.line (field : Field) : Bytes := field.1 ++ [58, 32] ++ field.2

/-- What a reader has of a field: its value is a C string. -/
def Field.read (field : Field) : Field := (field.1, HTTP.cString field.2)

/-- What a program asks of a block. -/
inductive HeaderCall where
  | add (optionName optionValue : Bytes)
  | replace (optionName optionValue : Bytes)

namespace HeaderCall

def apply (random : Nat → RandomString) (header : MIMESubHeader) : HeaderCall → MIMESubHeader
  | .add optionName optionValue => (header.add random optionName optionValue 0).2
  | .replace optionName optionValue => header.replace random optionName optionValue

/-- A field more, if there is room for one. -/
def put (maxOptions : Nat) (fields : List Field) (field : Field) : List Field :=
  if fields.length = maxOptions then fields else fields ++ [field]

/-- What the call makes of the fields. -/
def follow (maxOptions : Nat) (fields : List Field) : HeaderCall → List Field
  | .add optionName optionValue => put maxOptions fields (optionName, optionValue)
  | .replace optionName optionValue =>
    put maxOptions (fields.filter fun field => HTTP.toUpper field.1 ≠ HTTP.toUpper optionName) (optionName, optionValue)

/-- The fields that are there after the calls. -/
def left (maxOptions : Nat) (calls : List HeaderCall) : List Field := calls.foldl (follow maxOptions) []

end HeaderCall

/-- What a line can carry to its reader, but for NUL bytes in the value and its length. -/
structure Separated (field : Field) : Prop where
  starts : ¬(field.1.head? = some 32 ∨ field.1.head? = some 9)
  separator : ¬[58, 32] <:+: field.1
  name : ¬crlf <:+: field.1
  value : ¬crlf <:+: field.2

theorem Separated.isLine {field : Field} (separated : Separated field) : IsLine field.line where
  filled := by simp [Field.line]
  unbroken := by
    intro found
    have parts : field.line = field.1 ++ 58 :: 32 :: field.2 := by simp [Field.line]
    rw [parts] at found
    rcases infix_of_infix_append (by decide) found with inName | behind
    · exact separated.name inName
    · have blank : crlf <:+: [] ++ 32 :: field.2 := behind
      rcases infix_of_infix_append (by decide) blank with none | inValue
      · exact absurd none (by decide)
      · exact separated.value inValue

namespace MIMESubHeader

/-! ## What is put in -/

section
variable (random : Nat → RandomString)

/-- Names and values as they were given. -/
def fields (header : MIMESubHeader) : List Field :=
  header.headers.entries.map fun entry => (entry.2.origName, entry.2.origValue)

theorem length_fields (header : MIMESubHeader) : header.fields.length = header.headers.entries.length :=
  List.length_map _

theorem lines_eq (header : MIMESubHeader) : header.lines = header.fields.map Field.line := by
  rw [fields, List.map_map]
  rfl

theorem stream_eq (header : MIMESubHeader) : header.stream = blockOf (header.fields.map Field.line) := by
  rw [← lines_eq]
  rfl

theorem fields_new (maxOptions : Nat) : fields { new with maxOptions := maxOptions } = [] := rfl

/-- Each option is under its own name, and there are no more than there may be. -/
structure Filed (header : MIMESubHeader) : Prop where
  room : header.headers.entries.length ≤ header.maxOptions
  keys : ∀ entry ∈ header.headers.entries, entry.1 = HTTP.toUpper entry.2.origName

/-- Each option is under its own name. -/
def Keyed (header : MIMESubHeader) : Prop := ∀ entry ∈ header.headers.entries, entry.1 = HTTP.toUpper entry.2.origName

theorem Filed.keyed {header : MIMESubHeader} (filed : header.Filed) : header.Keyed := filed.keys

theorem filed_new (maxOptions : Nat) : Filed { new with maxOptions := maxOptions } :=
  ⟨Nat.zero_le _, List.forall_mem_nil _⟩

section
variable {header : MIMESubHeader}

theorem fields_add (name value : Bytes) :
    ((header.add random name value 0).2.fields).Perm (HeaderCall.put header.maxOptions header.fields (name, value)) := by
  unfold HeaderCall.put
  rw [length_fields]
  by_cases full : header.headers.entries.length = header.maxOptions
  · rw [if_pos full, add_full random name value full]
  · obtain ⟨option, made, headers, -⟩ := add_room random name value full
    rw [if_neg full, fields, headers]
    have placed := Multimap.place_perm (HTTP.toUpper name) option header.headers.entries
    have same := placed.map fun entry => (entry.2.origName, entry.2.origValue)
    rw [List.map_cons, made.origName, made.origValue] at same
    exact same.trans (List.perm_append_singleton _ _).symm

theorem Keyed.add (keyed : header.Keyed) (name value : Bytes) : (header.add random name value 0).2.Keyed := by
  by_cases full : header.headers.entries.length = header.maxOptions
  · rw [add_full random name value full]
    exact keyed
  · obtain ⟨option, made, headers, -⟩ := add_room random name value full
    intro entry member
    rw [headers] at member
    rcases Multimap.mem_insert.mp member with rfl | old
    · rw [made.origName]
    · exact keyed entry old

theorem Keyed.remove (keyed : header.Keyed) (name : Bytes) : (header.remove name).Keyed :=
  fun entry member => keyed entry (List.mem_filter.mp member).1

theorem Keyed.fields_remove (keyed : header.Keyed) (name : Bytes) :
    (header.remove name).fields = header.fields.filter fun field => HTTP.toUpper field.1 ≠ HTTP.toUpper name := by
  rw [fields, fields, List.filter_map]
  apply congrArg
  apply List.filter_congr
  intro entry member
  rw [keyed entry member]
  rfl

theorem Filed.add (filed : header.Filed) (name value : Bytes) : (header.add random name value 0).2.Filed := by
  refine ⟨?_, filed.keyed.add random name value⟩
  by_cases full : header.headers.entries.length = header.maxOptions
  · rw [add_full random name value full]
    exact filed.room
  · obtain ⟨option, -, headers, maxOptions⟩ := add_room random name value full
    have room := filed.room
    rw [headers, maxOptions, Multimap.length_insert]
    omega

theorem Filed.remove (filed : header.Filed) (name : Bytes) : (header.remove name).Filed where
  room := Nat.le_trans (List.length_filter_le _ _) filed.room
  keys := filed.keyed.remove name

end

/-- The block after the calls. -/
def built (maxOptions : Nat) (calls : List HeaderCall) : MIMESubHeader :=
  calls.foldl (HeaderCall.apply random) { new with maxOptions := maxOptions }

theorem perm_put (maxOptions : Nat) {fields fields' : List Field} (same : fields.Perm fields') (field : Field) :
    (HeaderCall.put maxOptions fields field).Perm (HeaderCall.put maxOptions fields' field) := by
  unfold HeaderCall.put
  rw [same.length_eq]
  split
  · exact same
  · exact same.append_right _

/-- One call. -/
theorem Filed.apply {header : MIMESubHeader} (filed : header.Filed) {fields : List Field}
    (same : header.fields.Perm fields) (call : HeaderCall) :
    (call.apply random header).Filed ∧ (call.apply random header).maxOptions = header.maxOptions ∧
      ((call.apply random header).fields).Perm (call.follow header.maxOptions fields) := by
  cases call with
  | add name value =>
    refine ⟨filed.add random name value, maxOptions_add random header name value, ?_⟩
    exact (fields_add random name value).trans (perm_put _ same _)
  | replace name value =>
    refine ⟨(filed.remove name).add random name value, maxOptions_replace random header name value, ?_⟩
    apply (fields_add random name value).trans
    apply perm_put
    rw [filed.keyed.fields_remove]
    exact same.filter _

theorem filed_foldl (calls : List HeaderCall) {header : MIMESubHeader} (filed : header.Filed) {fields : List Field}
    (same : header.fields.Perm fields) :
    (calls.foldl (HeaderCall.apply random) header).Filed ∧
      (calls.foldl (HeaderCall.apply random) header).maxOptions = header.maxOptions ∧
      (calls.foldl (HeaderCall.apply random) header).fields.Perm
        (calls.foldl (HeaderCall.follow header.maxOptions) fields) := by
  induction calls generalizing header fields with
  | nil => exact ⟨filed, rfl, same⟩
  | cons call rest ih =>
    obtain ⟨filed', maxOptions, same'⟩ := filed.apply random same call
    rw [← maxOptions] at same' ⊢
    exact ih filed' same'

theorem built_fields (maxOptions : Nat) (calls : List HeaderCall) :
    (built random maxOptions calls).fields.length ≤ maxOptions ∧
      (built random maxOptions calls).fields.Perm (HeaderCall.left maxOptions calls) := by
  obtain ⟨filed, same, fields⟩ := filed_foldl random calls (filed_new maxOptions) (.refl [])
  have room := filed.room
  rw [← length_fields, same] at room
  exact ⟨room, fields⟩

theorem built_keyed (maxOptions : Nat) (calls : List HeaderCall) : (built random maxOptions calls).Keyed :=
  (filed_foldl random calls (filed_new maxOptions) (.refl [])).1.keyed

theorem built_maxOptions (maxOptions : Nat) (calls : List HeaderCall) :
    (built random maxOptions calls).maxOptions = maxOptions :=
  (filed_foldl random calls (filed_new maxOptions) (.refl [])).2.1

/-! ## What is read -/

/-- The line of a field gives its name and what a C string has of its value. -/
theorem parseOptionValue_line (header : MIMESubHeader) {field : Field} (separated : Separated field) :
    header.parseOptionValue random field.line = (header.add random field.1 (HTTP.cString field.2) 0).2 := by
  have found : occurrence [58, 32] field.line = some field.1.length :=
    occurrence_pair (by decide) separated.separator field.2
  have starts : ¬(field.line.head? = some 32 ∨ field.line.head? = some 9) := by
    cases name : field.1 with
    | nil =>
      rw [Field.line, name]
      simp
    | cons first rest =>
      have starts := separated.starts
      rw [name] at starts
      rw [Field.line, name]
      exact starts
  have behind : field.line.drop (field.1.length + 2) = field.2 := List.drop_left' (by simp)
  unfold parseOptionValue
  rw [if_neg starts, found]
  dsimp only
  rw [behind, Field.line, List.append_assoc, List.take_left' rfl]

theorem fields_foldl_lines (fields : List Field) {header : MIMESubHeader} (separated : ∀ field ∈ fields, Separated field)
    (room : header.fields.length + fields.length ≤ header.maxOptions) :
    ((fields.map Field.line).foldl (parseOptionValue random) header).fields.Perm
      (header.fields ++ fields.map Field.read) := by
  induction fields generalizing header with
  | nil => exact .of_eq (List.append_nil _).symm
  | cons field rest ih =>
    rw [List.forall_mem_cons] at separated
    rw [List.length_cons] at room
    have added := @fields_add random header field.1 (HTTP.cString field.2)
    rw [HeaderCall.put, if_neg (by omega)] at added
    rw [List.map_cons, List.foldl_cons, parseOptionValue_line random header separated.1]
    have length := added.length_eq
    rw [List.length_append, List.length_singleton] at length
    have read := @ih (header.add random field.1 (HTTP.cString field.2) 0).2 separated.2
      (by rw [length, maxOptions_add]; omega)
    apply read.trans
    rw [List.map_cons, List.append_cons]
    exact added.append_right _

/-- What is read is separated. -/
def Clean (header : MIMESubHeader) : Prop := ∀ field ∈ header.fields, Separated field

theorem clean_add {header : MIMESubHeader} (clean : header.Clean) {name value : Bytes} (separated : Separated (name, value)) :
    (header.add random name value 0).2.Clean := by
  intro field member
  have put := (fields_add random name value).mem_iff.mp member
  unfold HeaderCall.put at put
  split at put
  · exact clean field put
  · rcases List.mem_append.mp put with old | same
    · exact clean field old
    · rwa [List.mem_singleton.mp same]

theorem clean_parseOptionValue (header : MIMESubHeader) (line : Bytes) (isLine : IsLine line) (clean : header.Clean) :
    (header.parseOptionValue random line).Clean := by
  unfold parseOptionValue
  split
  case isTrue _ =>
    -- the last option is given the line for its value, the others stay
    rw [add, if_neg (by decide)]
    split
    · rw [if_pos rfl]
      intro field member
      simp only [fields, Multimap.map, List.map_map] at member
      obtain ⟨entry, inside, rfl⟩ := List.mem_map.mp member
      have old := clean _ (List.mem_map_of_mem inside)
      dsimp only [Function.comp_apply]
      split
      · rw [MIMEHeaderOption.origName_parseSubValues, MIMEHeaderOption.origValue_parseSubValues]
        exact ⟨old.starts, old.separator, old.name, isLine.unbroken⟩
      · exact old
    · exact clean
  case isFalse starts =>
    split
    case h_1 found occurs =>
      apply clean_add random clean
      refine ⟨?_, not_infix_take_of_occurrence (by decide) occurs, ?_, ?_⟩
      · intro blank
        apply starts
        cases found with
        | zero => simp at blank
        | succ found =>
          cases line with
          | nil => simp at blank
          | cons byte rest => exact blank
      · exact fun broken => isLine.unbroken (broken.trans (List.take_prefix _ _).isInfix)
      · intro broken
        have inside : HTTP.cString (line.drop (found + 2)) <:+: line :=
          (List.takeWhile_prefix _).isInfix.trans (List.drop_suffix _ _).isInfix
        exact isLine.unbroken (broken.trans inside)
    case h_2 _ => exact clean

end

/-! ## Both together -/

section
variable (limit : LineLimit)

/-- What a line can carry to its reader. -/
structure Sendable (field : Field) : Prop extends Separated field where
  whole : ∀ byte ∈ field.2, byte ≠ 0
  short : field.line.length + crlf.length ≤ limit.size

theorem Sendable.read {field : Field} (sendable : Sendable limit field) : field.read = field := by
  rw [Field.read, cString_eq_self sendable.whole]

/-- Values that are read as they are written have no NUL byte. -/
theorem whole_of_perm {fields : List Field} (same : (fields.map Field.read).Perm fields) :
    ∀ field ∈ fields, ∀ byte ∈ field.2, byte ≠ 0 := by
  intro field member byte inside
  have sums := (same.map fun field => field.2.length).sum_eq
  rw [List.map_map] at sums
  have shorter : ∀ field : Field, (HTTP.cString field.2).length ≤ field.2.length := fun field =>
    (List.takeWhile_prefix _).length_le
  by_contra zero
  have lost : (HTTP.cString field.2).length < field.2.length := by
    apply Nat.lt_of_le_of_ne (shorter field)
    intro length
    have whole := (List.takeWhile_prefix _).eq_of_length length
    have none := List.takeWhile_eq_self_iff.mp whole byte inside
    exact of_decide_eq_true none zero
  have less := List.sum_lt_sum (fun field : Field => (HTTP.cString field.2).length) (fun field => field.2.length)
    (fun other _ => shorter other) ⟨field, member, lost⟩
  exact absurd sums (Nat.ne_of_lt less)

/-- However the bytes are cut, and whatever comes behind them, a reader of the same limits ends where they end and has
the same fields. -/
def StreamsBack (header : MIMESubHeader) : Prop :=
  ∀ (random : Nat → RandomString) (writes : List Bytes) (later : Bytes), (∀ buf ∈ writes, buf ≠ []) →
    writes.flatten = header.stream ++ later →
      ((protocol random).run (parser limit header.maxOptions) writes).verdict = .finished ∧
        ((protocol random).run (parser limit header.maxOptions) writes).consumed = header.stream.length ∧
        ((protocol random).run (parser limit header.maxOptions) writes).user.fields.Perm header.fields

section
variable {header : MIMESubHeader} (room : header.fields.length ≤ header.maxOptions)
include room

theorem streams_back (sendable : ∀ field ∈ header.fields, Sendable limit field) (few : header.fields.length ≤ 4096) :
    StreamsBack limit header := by
  intro random writes later filled flat
  rw [stream_eq] at flat ⊢
  have each : ∀ line ∈ header.fields.map Field.line, IsLine line ∧ line.length + crlf.length ≤ limit.size := by
    intro line member
    obtain ⟨field, inside, rfl⟩ := List.mem_map.mp member
    exact ⟨(sendable field inside).isLine, (sendable field inside).short⟩
  obtain ⟨finished, user, consumed⟩ := run_lines random limit each (by rwa [List.length_map]) header.maxOptions filled flat
  refine ⟨finished, consumed, ?_⟩
  rw [user]
  have read := fields_foldl_lines random header.fields (fun field member => (sendable field member).toSeparated)
    (by rwa [fields_new, List.length_nil, Nat.zero_add] :
      (fields { new with maxOptions := header.maxOptions }).length + _ ≤ header.maxOptions)
  have same : header.fields.map Field.read = header.fields := by
    conv_rhs => rw [← List.map_id header.fields]
    exact List.map_congr_left fun field member => (sendable field member).read
  rw [same] at read
  exact read

theorem of_streams_back (random : Nat → RandomString) (back : StreamsBack limit header) :
    (∀ field ∈ header.fields, Sendable limit field) ∧ header.fields.length ≤ 4096 := by
  have filled : header.stream ≠ [] := blockOf_ne_nil header.lines
  obtain ⟨finished, -, same⟩ := back random [header.stream] []
    (fun buf member => by rwa [List.mem_singleton.mp member]) (by simp)
  -- what is read is separated, and so is what was written
  obtain ⟨n, completes⟩ := completes_of_run_single random limit filled header.maxOptions finished
  have clean := keeps_of_completes random limit (clean_parseOptionValue random) completes (List.forall_mem_nil _)
  have separated : ∀ field ∈ header.fields, Separated field := fun field member => clean field (same.mem_iff.mpr member)
  have each : ∀ line ∈ header.fields.map Field.line, IsLine line := by
    intro line member
    obtain ⟨field, inside, rfl⟩ := List.mem_map.mp member
    exact (separated field inside).isLine
  rw [stream_eq] at finished completes
  obtain ⟨short, few⟩ := of_run_single random limit each header.maxOptions finished
  rw [List.length_map] at few
  refine ⟨?_, few⟩
  -- no value has lost a byte
  rw [← List.append_nil (blockOf _)] at completes
  have user := congrArg Prod.snd (of_completes_lines random limit each completes).2
  dsimp only at user
  have read := fields_foldl_lines random header.fields separated
    (by rwa [fields_new, List.length_nil, Nat.zero_add] :
      (fields { new with maxOptions := header.maxOptions }).length + _ ≤ header.maxOptions)
  rw [← stream_eq, List.append_nil] at user
  rw [← user] at read
  have whole := whole_of_perm (read.symm.trans same)
  intro field member
  exact ⟨separated field member, whole field member, short _ (List.mem_map_of_mem member)⟩

end

/-- What calls have put in is read back exactly when every field of theirs can be carried by a line of its own, and there
are turns for the lines. -/
theorem streamsBack_iff (random : Nat → RandomString) (maxOptions : Nat) (calls : List HeaderCall) :
    StreamsBack limit (built random maxOptions calls) ↔
      (∀ field ∈ HeaderCall.left maxOptions calls, Sendable limit field) ∧
        (HeaderCall.left maxOptions calls).length ≤ 4096 := by
  obtain ⟨within, same⟩ := built_fields random maxOptions calls
  have room : (built random maxOptions calls).fields.length ≤ (built random maxOptions calls).maxOptions := by
    rwa [built_maxOptions]
  rw [← same.length_eq]
  constructor
  · intro back
    obtain ⟨sendable, few⟩ := of_streams_back limit room random back
    exact ⟨fun field member => sendable field (same.mem_iff.mpr member), few⟩
  · rintro ⟨sendable, few⟩
    exact streams_back limit room (fun field member => sendable field (same.mem_iff.mp member)) few

/-- The random strings of a test. -/
def letters : Nat → RandomString := fun _ => .letters

/-- A redirection to a location with a line break in it. -/
def redirection : List HeaderCall := [.replace (ascii "Location") (ascii "/\r\nSet-Cookie: id=1")]

/-- It sets a cookie. -/
theorem not_streamsBack : ¬StreamsBack .default (built letters 32 redirection) := by
  obtain ⟨within, same⟩ := built_fields letters 32 redirection
  intro back
  obtain ⟨sendable, -⟩ := of_streams_back .default (by rwa [built_maxOptions]) letters back
  have left := sendable (ascii "Location", ascii "/\r\nSet-Cookie: id=1") (same.mem_iff.mpr (by decide))
  exact left.value (by decide)

end

end MIMESubHeader

end Mantids.MIME
