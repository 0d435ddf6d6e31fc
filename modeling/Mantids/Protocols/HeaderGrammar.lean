import Mantids.Library.Grouping
import Mantids.Protocols.HeaderInjection

/-! Fields, the lines they are continued on, and malformed lines among them: what a header block says, and what its
reader makes of it. -/

set_option autoImplicit false

namespace Mantids.MIME

open Memory Memory.Streams Library

/-- What a line begins with that goes on with the one before. -/
abbrev BlankStart (line : Bytes) : Prop := line.head? = some 32 ∨ line.head? = some 9

/-! ## The fields that lines leave -/

namespace MIMESubHeader

/-- What a line makes of the fields, the newest first. -/
def readLine (maxOptions : Nat) (fields : List Field) (line : Bytes) : List Field :=
  if BlankStart line then
    match fields with
    | [] => []
    | last :: earlier => (last.1, line) :: earlier
  else
    match occurrence [58, 32] line with
    | some found =>
      if fields.length = maxOptions then fields
      else (line.take found, HTTP.cString (line.drop (found + 2))) :: fields
    | none => fields

/-- Options as they were allocated, the newest first. -/
def Numbered : List MIMEHeaderOption → Prop
  | [] => True
  | option :: earlier => option.allocation = earlier.length ∧ Numbered earlier

theorem Numbered.below {options : List MIMEHeaderOption} (numbered : Numbered options) :
    ∀ option ∈ options, option.allocation < options.length := by
  induction options with
  | nil => exact List.forall_mem_nil _
  | cons option earlier ih =>
    rw [List.forall_mem_cons, List.length_cons]
    refine ⟨by rw [numbered.1]; omega, fun other member => ?_⟩
    have below := ih numbered.2 other member
    omega

/-- A block that has come by these options, the newest first. -/
structure Arrived (header : MIMESubHeader) (options : List MIMEHeaderOption) : Prop where
  values : ∀ key, header.headers.values key = (options.filter fun option => HTTP.toUpper option.origName = key).reverse
  count : header.headers.entries.length = options.length
  allocated : header.allocated = options.length
  last : header.lastOpt = options.head?.map (·.allocation)
  numbered : Numbered options

section
variable (random : Nat → RandomString)

theorem arrived_new (maxOptions : Nat) : Arrived { new with maxOptions := maxOptions } [] :=
  ⟨fun _ => rfl, rfl, rfl, rfl, trivial⟩

section
variable {header : MIMESubHeader} {options : List MIMEHeaderOption} (arrived : Arrived header options)
include arrived

theorem Arrived.add (room : options.length ≠ header.maxOptions) (name value : Bytes) :
    ∃ option, option.origName = name ∧ option.origValue = value ∧
      Arrived (header.add random name value 0).2 (option :: options) := by
  rw [← arrived.count] at room
  refine ⟨{ MIMEHeaderOption.new header.allocated with origName := name }.parseSubValues (random header.drawn) value,
    MIMEHeaderOption.origName_parseSubValues _ _ _, MIMEHeaderOption.origValue_parseSubValues _ _ _, ?_⟩
  unfold MIMESubHeader.add
  rw [if_pos rfl, if_neg room]
  refine ⟨?_, ?_, ?_, ?_, ?_, arrived.numbered⟩
  · intro key
    dsimp only [MIMEHeaderOption.getUpperName]
    rw [Multimap.values_insert, arrived.values, List.filter_cons, MIMEHeaderOption.origName_parseSubValues]
    by_cases here : key = HTTP.toUpper name
    · simp [here]
    · simp [here, Ne.symm here]
  · dsimp only
    rw [Multimap.length_insert, arrived.count, List.length_cons]
  · dsimp only
    rw [arrived.allocated, List.length_cons]
  · dsimp only [List.head?_cons, Option.map_some]
    rw [MIMEHeaderOption.allocation_parseSubValues]
    rfl
  · rw [MIMEHeaderOption.allocation_parseSubValues]
    exact arrived.allocated

theorem Arrived.add_full (full : options.length = header.maxOptions) (name value : Bytes) :
    (header.add random name value 0).2 = header := by
  rw [← arrived.count] at full
  rw [MIMESubHeader.add_full random name value full]

end

/-- A line that goes on gives the newest option its value, if there is one. -/
theorem Arrived.goOn {header : MIMESubHeader} {option : MIMEHeaderOption} {earlier : List MIMEHeaderOption}
    (arrived : Arrived header (option :: earlier)) (line : Bytes) :
    ∃ option', option'.origName = option.origName ∧ option'.origValue = line ∧
      Arrived (header.add random [] line 1).2 (option' :: earlier) := by
  refine ⟨option.parseSubValues (random header.drawn) line, MIMEHeaderOption.origName_parseSubValues _ _ _,
    MIMEHeaderOption.origValue_parseSubValues _ _ _, ?_⟩
  have last := arrived.last
  rw [List.head?_cons, Option.map_some] at last
  let goes (other : MIMEHeaderOption) : MIMEHeaderOption :=
    if other.allocation = option.allocation then other.parseSubValues (random header.drawn) line else other
  have result : (header.add random [] line 1).2 =
      { header with headers := header.headers.map goes, drawn := header.drawn + 1 } := by
    rw [MIMESubHeader.add, if_neg (by decide), last]
    rfl
  -- the others have been allocated before
  have whole : (option :: earlier).map goes = option.parseSubValues (random header.drawn) line :: earlier := by
    rw [List.map_cons]
    congr 1
    · exact if_pos rfl
    · conv_rhs => rw [← List.map_id earlier]
      apply List.map_congr_left
      intro other member
      have below := arrived.numbered.2.below other member
      rw [← arrived.numbered.1] at below
      exact if_neg (Nat.ne_of_lt below)
  have named : ∀ other, (goes other).origName = other.origName := by
    intro other
    dsimp only [goes]
    split
    · exact MIMEHeaderOption.origName_parseSubValues _ _ _
    · rfl
  rw [result]
  refine ⟨?_, ?_, arrived.allocated, ?_, ?_, arrived.numbered.2⟩
  · intro key
    dsimp only
    rw [Multimap.values_map, arrived.values, List.map_reverse, ← whole, List.filter_map]
    apply congrArg fun kept => (List.map goes kept).reverse
    apply List.filter_congr
    intro other _
    rw [Function.comp_apply, named]
  · dsimp only [Multimap.map]
    rw [List.length_map, arrived.count, List.length_cons, List.length_cons]
  · dsimp only
    rw [last, List.head?_cons, Option.map_some, MIMEHeaderOption.allocation_parseSubValues]
  · rw [MIMEHeaderOption.allocation_parseSubValues]
    exact arrived.numbered.1

/-- The fields of the options. -/
def texts (options : List MIMEHeaderOption) : List Field := options.map fun option => (option.origName, option.origValue)

theorem Arrived.line {header : MIMESubHeader} {options : List MIMEHeaderOption} (arrived : Arrived header options)
    (line : Bytes) :
    ∃ options', Arrived (header.parseOptionValue random line) options' ∧
      texts options' = readLine header.maxOptions (texts options) line ∧
      (header.parseOptionValue random line).maxOptions = header.maxOptions := by
  unfold parseOptionValue readLine
  split
  case isTrue _ =>
    cases options with
    | nil =>
      have last := arrived.last
      have same : (header.add random [] line 1).2 = header := by
        rw [MIMESubHeader.add, if_neg (by decide), last]
        rfl
      rw [same]
      exact ⟨[], arrived, rfl, rfl⟩
    | cons option earlier =>
      obtain ⟨option', name, value, arrived'⟩ := arrived.goOn random line
      refine ⟨option' :: earlier, arrived', ?_, ?_⟩
      · rw [texts, List.map_cons, name, value]
        rfl
      · rw [MIMESubHeader.add, if_neg (by decide), arrived.last]
        rfl
  case isFalse _ =>
    cases occurrence [58, 32] line with
    | some found =>
      dsimp only
      have length : (texts options).length = options.length := List.length_map _
      by_cases full : options.length = header.maxOptions
      · rw [arrived.add_full random full, if_pos (length.trans full)]
        exact ⟨options, arrived, rfl, rfl⟩
      · obtain ⟨option, name, value, arrived'⟩ :=
          arrived.add random full (line.take found) (HTTP.cString (line.drop (found + 2)))
        rw [if_neg (fun room => full (length.symm.trans room))]
        refine ⟨option :: options, arrived', ?_, maxOptions_add random header _ _⟩
        rw [texts, List.map_cons, name, value]
        rfl
    | none => exact ⟨options, arrived, rfl, rfl⟩

theorem arrived_foldl (lines : List Bytes) {header : MIMESubHeader} {options : List MIMEHeaderOption}
    (arrived : Arrived header options) :
    ∃ options', Arrived (lines.foldl (parseOptionValue random) header) options' ∧
      texts options' = lines.foldl (readLine header.maxOptions) (texts options) := by
  induction lines generalizing header options with
  | nil => exact ⟨options, arrived, rfl⟩
  | cons line rest ih =>
    obtain ⟨options', arrived', same, maxOptions⟩ := arrived.line random line
    rw [List.foldl_cons, List.foldl_cons, ← same, ← maxOptions]
    exact ih arrived'

/-- What a block has under a name after its lines. -/
theorem values_foldl_lines (maxOptions : Nat) (lines : List Bytes) (key : Bytes) :
    ((lines.foldl (parseOptionValue random) { new with maxOptions := maxOptions }).headers.values key).map
        (fun option => (option.origName, option.origValue)) =
      (lines.foldl (readLine maxOptions) []).reverse.filter fun field => HTTP.toUpper field.1 = key := by
  obtain ⟨options, arrived, same⟩ := arrived_foldl random lines (arrived_new maxOptions)
  have read : texts options = lines.foldl (readLine maxOptions) [] := same
  rw [arrived.values, ← read, texts, List.map_reverse, List.filter_reverse, List.filter_map]
  rfl

end

end MIMESubHeader

/-! ## Well-formed blocks -/

/-- A line that goes on with the one before. -/
structure Continuation where
  line : Bytes
  starts : BlankStart line
  text : PlainText line

/-- A field: what is behind the colon of its first line, blanks and value, and the lines it is continued on. -/
structure HeaderField where
  name : Bytes
  behind : Bytes
  continuations : List Continuation
  starts : ¬BlankStart name
  named : ∀ byte ∈ name, byte ≠ 58 ∧ byte ≠ 13
  text : PlainText behind

/-- A line without a colon, and the lines it is continued on. -/
structure MalformedLine where
  line : Bytes
  continuations : List Continuation
  filled : line ≠ []
  starts : ¬BlankStart line
  text : ∀ byte ∈ line, byte ≠ 58 ∧ byte ≠ 13

inductive HeaderItem where
  | field (field : HeaderField)
  | malformed (line : MalformedLine)

/-- The value of a field, over its lines. -/
def HeaderField.unfolded (field : HeaderField) : Bytes := field.behind ++ (field.continuations.map (·.line)).flatten

namespace HeaderItem

/-- The lines of an item. -/
def lines : HeaderItem → List Bytes
  | .field entry => (entry.name ++ 58 :: entry.behind) :: entry.continuations.map (·.line)
  | .malformed line => line.line :: line.continuations.map (·.line)

/-- The fields of a block, each with its value. -/
def fields : List HeaderItem → List HeaderField
  | [] => []
  | .field entry :: later => entry :: fields later
  | .malformed _ :: later => fields later

/-- What a block says: its fields, each with its value, trimmed. -/
def meaning (items : List HeaderItem) : List Field := (fields items).map fun field => (field.name, trim field.unfolded)

/-! ## What the reader makes of it -/

/-- The lines that go on with malformed lines, before the next field. -/
def stray : List HeaderItem → List Bytes
  | .malformed line :: later => line.continuations.map (·.line) ++ stray later
  | _ => []

/-- What the newest field is after lines that go on with it. -/
def restate (continuations : List Bytes) : List Field → List Field
  | [] => []
  | last :: earlier => (last.1, continuations.getLastD last.2) :: earlier

/-- What is stored of fields that a blank follows the colon of. -/
def stored : List HeaderItem → List Field
  | [] => []
  | .field entry :: later =>
    (entry.name, (entry.continuations.map (·.line) ++ stray later).getLastD entry.behind.tail) :: stored later
  | .malformed _ :: later => stored later

/-- Every field is stored with its value: there is a blank behind its colon, and the last line that goes on with it, or
with a malformed line before the next field, says the same as all its lines. -/
def Kept : List HeaderItem → Prop
  | [] => True
  | .field entry :: later =>
    entry.behind.head? = some 32 ∧
      trim ((entry.continuations.map (·.line) ++ stray later).getLastD entry.behind) = trim entry.unfolded ∧ Kept later
  | .malformed _ :: later => Kept later

theorem restate_append (first second : List Bytes) (fields : List Field) :
    restate (first ++ second) fields = restate second (restate first fields) := by
  cases fields with
  | nil => rfl
  | cons last earlier =>
    dsimp only [restate]
    rw [List.getLastD_eq_getLast?, List.getLastD_eq_getLast?, List.getLastD_eq_getLast?, List.getLast?_append]
    cases second.getLast? <;> rfl

section
variable (maxOptions : Nat)

open MIMESubHeader (readLine)

theorem foldl_continuations (continuations : List Continuation) (fields : List Field) :
    (continuations.map (·.line)).foldl (readLine maxOptions) fields =
      restate (continuations.map (·.line)) fields := by
  induction continuations generalizing fields with
  | nil => cases fields <;> rfl
  | cons continuation rest ih =>
    have step : readLine maxOptions fields continuation.line = restate [continuation.line] fields := by
      unfold readLine
      rw [if_pos continuation.starts]
      cases fields <;> rfl
    rw [List.map_cons, List.foldl_cons, step, ih, ← restate_append]
    rfl

theorem readLine_malformed (line : MalformedLine) (fields : List Field) :
    readLine maxOptions fields line.line = fields := by
  have none : occurrence [58, 32] line.line = none := by
    rw [occurrence_eq_none_iff]
    intro i less here
    have member := List.mem_of_mem_drop (here.subset List.mem_cons_self)
    exact (line.text 58 member).1 rfl
  unfold readLine
  rw [if_neg line.starts, none]

theorem notBlank_field (entry : HeaderField) : ¬BlankStart (entry.name ++ 58 :: entry.behind) := by
  have starts := entry.starts
  cases name : entry.name with
  | nil => simp [BlankStart]
  | cons first rest =>
    rw [name] at starts
    exact starts

theorem readLine_separated (entry : HeaderField) (separated : entry.behind.head? = some 32) {fields : List Field}
    (room : fields.length < maxOptions) :
    readLine maxOptions fields (entry.name ++ 58 :: entry.behind) = (entry.name, entry.behind.tail) :: fields := by
  obtain ⟨value, behind⟩ := List.head?_eq_some_iff.mp separated
  have absent : 58 ∉ entry.name := fun member => (entry.named 58 member).1 rfl
  have found : occurrence [58, 32] (entry.name ++ 58 :: entry.behind) = some entry.name.length := by
    rw [behind]
    exact occurrence_of_notMem absent [32] value
  have text : HTTP.cString entry.behind.tail = entry.behind.tail := by
    apply cString_eq_self
    intro byte member
    exact (entry.text byte (List.mem_of_mem_tail member)).2
  have rest : (entry.name ++ 58 :: entry.behind).drop (entry.name.length + 2) = entry.behind.tail := by
    rw [← List.drop_drop, List.drop_left' rfl, behind]
    rfl
  unfold readLine
  rw [if_neg (notBlank_field entry), found]
  dsimp only
  rw [if_neg (Nat.ne_of_lt room), rest, text, List.take_left' rfl]

/-- Without a blank behind its colon a field is passed over, or is stored under a name that has a colon in it. -/
theorem readLine_joined (entry : HeaderField) (joined : entry.behind.head? ≠ some 32) (fields : List Field) :
    readLine maxOptions fields (entry.name ++ 58 :: entry.behind) = fields ∨
      ∃ name value, 58 ∈ name ∧
        readLine maxOptions fields (entry.name ++ 58 :: entry.behind) = (name, value) :: fields := by
  unfold readLine
  rw [if_neg (notBlank_field entry)]
  split
  case h_1 found occurs =>
    split
    · exact .inl rfl
    · refine .inr ⟨_, _, ?_, rfl⟩
      obtain ⟨-, here, -⟩ := occurrence_eq_some_iff.mp occurs
      have beyond : entry.name.length < found := by
        by_contra within
        rw [List.drop_append_of_le_length (Nat.not_lt.mp within)] at here
        cases rest : entry.name.drop found with
        | nil =>
          rw [rest, List.nil_append, List.cons_prefix_cons] at here
          obtain ⟨value, behind⟩ := here.2
          exact joined (behind ▸ rfl)
        | cons byte rest' =>
          rw [rest, List.cons_append, List.cons_prefix_cons] at here
          have member : byte ∈ entry.name := List.mem_of_mem_drop (rest ▸ List.mem_cons_self)
          exact (entry.named byte member).1 here.1.symm
      obtain ⟨more, rfl⟩ := Nat.exists_eq_add_of_lt beyond
      rw [Nat.add_assoc, List.take_length_add_append, List.take_succ_cons]
      exact List.mem_append_right _ List.mem_cons_self
  case h_2 _ => exact .inl rfl

/-- The lines of one item. -/
theorem foldl_malformed (line : MalformedLine) (fields : List Field) :
    (HeaderItem.malformed line).lines.foldl (readLine maxOptions) fields =
      restate (line.continuations.map (·.line)) fields := by
  rw [lines, List.foldl_cons, readLine_malformed, foldl_continuations]

theorem foldl_field (entry : HeaderField) (separated : entry.behind.head? = some 32) {fields : List Field}
    (room : fields.length < maxOptions) :
    (HeaderItem.field entry).lines.foldl (readLine maxOptions) fields =
      restate (entry.continuations.map (·.line)) ((entry.name, entry.behind.tail) :: fields) := by
  rw [lines, List.foldl_cons, readLine_separated maxOptions entry separated room, foldl_continuations]

/-- Where a blank follows every colon, the fields are stored in their order. -/
theorem foldl_items (items : List HeaderItem) (separated : ∀ entry ∈ fields items, entry.behind.head? = some 32)
    {before : List Field} (room : before.length + (fields items).length ≤ maxOptions) :
    (items.flatMap lines).foldl (readLine maxOptions) before =
      (stored items).reverse ++ restate (stray items) before := by
  induction items generalizing before with
  | nil => cases before <;> rfl
  | cons item later ih =>
    rw [List.flatMap_cons, List.foldl_append]
    cases item with
    | field entry =>
      rw [fields, List.forall_mem_cons] at separated
      rw [fields, List.length_cons] at room
      rw [foldl_field maxOptions entry separated.1 (by omega)]
      rw [ih separated.2 (by dsimp only [restate, List.length_cons]; omega)]
      rw [← restate_append, stored, List.reverse_cons, List.append_assoc]
      cases before <;> rfl
    | malformed line =>
      rw [foldl_malformed]
      have length : (restate (line.continuations.map (·.line)) before).length = before.length := by
        cases before <;> rfl
      rw [ih separated (by rwa [length]), ← restate_append]
      rfl

/-! ## Fields that are not stored -/

theorem names_restate (continuations : List Bytes) (fields : List Field) :
    (restate continuations fields).map Prod.fst = fields.map Prod.fst := by
  cases fields <;> rfl

/-- An item adds a field at most, and takes none away. -/
theorem item_cases (item : HeaderItem) (before : List Field) (room : before.length + (fields [item]).length ≤ maxOptions) :
    (item.lines.foldl (readLine maxOptions) before).map Prod.fst = before.map Prod.fst ∨
      ∃ entry name, item = .field entry ∧ (entry.behind.head? = some 32 ∨ 58 ∈ name) ∧
        (item.lines.foldl (readLine maxOptions) before).map Prod.fst = name :: before.map Prod.fst := by
  cases item with
  | malformed line =>
    rw [foldl_malformed, names_restate]
    exact .inl rfl
  | field entry =>
    by_cases separated : entry.behind.head? = some 32
    · rw [foldl_field maxOptions entry separated room, names_restate]
      exact .inr ⟨entry, entry.name, rfl, .inl separated, rfl⟩
    · rw [lines, List.foldl_cons, foldl_continuations, names_restate]
      rcases readLine_joined maxOptions entry separated before with same | ⟨name, value, colon, added⟩
      · rw [same]
        exact .inl rfl
      · rw [added]
        exact .inr ⟨entry, name, rfl, .inr colon, rfl⟩

theorem fields_cons (item : HeaderItem) (later : List HeaderItem) : fields (item :: later) = fields [item] ++ fields later := by
  cases item <;> rfl

/-- Names stay, and there are no more than there are fields. -/
theorem names_foldl_items (items : List HeaderItem) (before : List Field)
    (room : before.length + (fields items).length ≤ maxOptions) :
    before.map Prod.fst <:+ ((items.flatMap lines).foldl (readLine maxOptions) before).map Prod.fst ∧
      ((items.flatMap lines).foldl (readLine maxOptions) before).length ≤ before.length + (fields items).length := by
  induction items generalizing before with
  | nil => exact ⟨List.suffix_rfl, Nat.le_refl _⟩
  | cons item later ih =>
    rw [fields_cons, List.length_append] at room ⊢
    rw [List.flatMap_cons, List.foldl_append]
    have cases := item_cases maxOptions item before (by omega)
    generalize item.lines.foldl (readLine maxOptions) before = after at cases ⊢
    rcases cases with same | ⟨entry, name, rfl, -, added⟩
    · have length := congrArg List.length same
      rw [List.length_map, List.length_map] at length
      obtain ⟨suffix, bound⟩ := ih after (by omega)
      rw [same] at suffix
      exact ⟨suffix, by omega⟩
    · have length := congrArg List.length added
      rw [List.length_map, List.length_cons, List.length_map] at length
      have one : (fields [HeaderItem.field entry]).length = 1 := rfl
      obtain ⟨suffix, bound⟩ := ih after (by omega)
      rw [added] at suffix
      exact ⟨(List.suffix_cons _ _).trans suffix, by omega⟩

/-- Where as many are stored as there are fields, and none under a name with a colon, a blank follows every colon. -/
theorem separated_of_foldl (items : List HeaderItem) {before : List Field}
    (room : before.length + (fields items).length ≤ maxOptions)
    (all : ((items.flatMap lines).foldl (readLine maxOptions) before).length = before.length + (fields items).length)
    (plain : ∀ name ∈ ((items.flatMap lines).foldl (readLine maxOptions) before).map Prod.fst, 58 ∉ name) :
    ∀ entry ∈ fields items, entry.behind.head? = some 32 := by
  induction items generalizing before with
  | nil => exact List.forall_mem_nil _
  | cons item later ih =>
    rw [fields_cons, List.length_append] at room all
    rw [List.flatMap_cons, List.foldl_append] at all plain
    have cases := item_cases maxOptions item before (by omega)
    generalize item.lines.foldl (readLine maxOptions) before = after at cases all plain
    rw [fields_cons, List.forall_mem_append]
    rcases cases with same | ⟨entry, name, rfl, kind, added⟩
    · have length := congrArg List.length same
      rw [List.length_map, List.length_map] at length
      have bound := (names_foldl_items maxOptions later after (by omega)).2
      cases item with
      | field entry =>
        have one : (fields [HeaderItem.field entry]).length = 1 := rfl
        omega
      | malformed line => exact ⟨List.forall_mem_nil _, ih (by omega) (by omega) plain⟩
    · have length := congrArg List.length added
      rw [List.length_map, List.length_cons, List.length_map] at length
      have one : (fields [HeaderItem.field entry]).length = 1 := rfl
      refine ⟨?_, ih (by omega) (by omega) plain⟩
      have suffix := (names_foldl_items maxOptions later after (by omega)).1
      rw [added] at suffix
      have absent := plain name (suffix.subset List.mem_cons_self)
      intro other member
      rw [List.mem_singleton.mp member]
      exact kind.resolve_right absent

end

/-! ## Stored with their values -/

/-- A stored field, trimmed. -/
def trimmed (field : Field) : Field := (field.1, trim field.2)

theorem names_stored (items : List HeaderItem) : (stored items).map Prod.fst = (fields items).map (·.name) := by
  induction items with
  | nil => rfl
  | cons item later ih =>
    cases item with
    | field entry => rw [stored, fields, List.map_cons, List.map_cons, ih]
    | malformed line => exact ih

theorem kept_iff (items : List HeaderItem) :
    Kept items ↔ (∀ entry ∈ fields items, entry.behind.head? = some 32) ∧ (stored items).map trimmed = meaning items := by
  induction items with
  | nil => exact iff_of_true trivial ⟨List.forall_mem_nil _, rfl⟩
  | cons item later ih =>
    cases item with
    | malformed line => exact ih
    | field entry =>
      rw [Kept, fields, List.forall_mem_cons, stored, meaning, fields, List.map_cons, List.map_cons, List.cons.injEq, ih,
        meaning]
      have value : entry.behind.head? = some 32 →
          trim ((entry.continuations.map (·.line) ++ stray later).getLastD entry.behind.tail) =
            trim ((entry.continuations.map (·.line) ++ stray later).getLastD entry.behind) := by
        intro separated
        obtain ⟨rest, behind⟩ := List.head?_eq_some_iff.mp separated
        rw [behind]
        cases entry.continuations.map (·.line) ++ stray later with
        | nil => rfl
        | cons line lines => rw [List.getLastD_cons, List.getLastD_cons]
      constructor
      · rintro ⟨separated, same, all, rest⟩
        exact ⟨⟨separated, all⟩, Prod.ext rfl ((value separated).trans same), rest⟩
      · rintro ⟨⟨separated, all⟩, same, rest⟩
        exact ⟨separated, (value separated).symm.trans (congrArg Prod.snd same), all, rest⟩

/-! ## Whole blocks -/

/-- The lines of a block, without the empty one. -/
def blockLines (items : List HeaderItem) : List Bytes := items.flatMap lines

theorem isLine_lines (item : HeaderItem) : ∀ line ∈ item.lines, IsLine line := by
  have unbroken : ∀ {line : Bytes}, (∀ byte ∈ line, byte ≠ 13) → ¬crlf <:+: line := by
    intro line plain broken
    exact plain 13 (broken.subset List.mem_cons_self) rfl
  have goesOn : ∀ continuations : List Continuation, ∀ line ∈ continuations.map (·.line), IsLine line := by
    intro continuations line member
    obtain ⟨continuation, -, rfl⟩ := List.mem_map.mp member
    refine ⟨?_, unbroken fun byte inside => (continuation.text byte inside).1⟩
    intro empty
    have starts := continuation.starts
    rw [empty] at starts
    rcases starts with impossible | impossible <;> cases impossible
  cases item with
  | field entry =>
    rw [lines, List.forall_mem_cons]
    refine ⟨⟨List.append_ne_nil_of_right_ne_nil _ (List.cons_ne_nil _ _), unbroken ?_⟩, goesOn _⟩
    intro byte member
    rw [List.mem_append, List.mem_cons] at member
    rcases member with inName | same | behind
    · exact (entry.named byte inName).2
    · rw [same]
      decide
    · exact (entry.text byte behind).1
  | malformed line =>
    rw [lines, List.forall_mem_cons]
    exact ⟨⟨line.filled, unbroken fun byte member => (line.text byte member).2⟩, goesOn _⟩

theorem isLine_blockLines (items : List HeaderItem) : ∀ line ∈ blockLines items, IsLine line := by
  intro line member
  obtain ⟨item, -, inside⟩ := List.mem_flatMap.mp member
  exact isLine_lines item line inside

section
variable (limit : LineLimit) (maxOptions : Nat)

open MIMESubHeader (protocol parser blockOf readLine)

/-- However the bytes are cut, and whatever comes behind them, the reader ends at the empty line and has under each name
the fields of that name, in their order, each with its value. -/
def StoresFields (items : List HeaderItem) : Prop :=
  ∀ (random : Nat → RandomString) (writes : List Bytes) (later : Bytes), (∀ buf ∈ writes, buf ≠ []) →
    writes.flatten = blockOf (blockLines items) ++ later →
      ((protocol random).run (parser limit maxOptions) writes).verdict = .finished ∧
        ((protocol random).run (parser limit maxOptions) writes).consumed = (blockOf (blockLines items)).length ∧
        ∀ varName, (((protocol random).run (parser limit maxOptions) writes).user.getOptionsByName varName).map
            (fun option => (option.origName, trim option.origValue)) =
          (meaning items).filter fun field => HTTP.toUpper field.1 = HTTP.toUpper varName

/-- What the lines of a block are read as. -/
def readBlock (items : List HeaderItem) : List Field :=
  (((blockLines items).foldl (readLine maxOptions) []).reverse).map trimmed

theorem getOptionsByName_foldl (random : Nat → RandomString) (items : List HeaderItem) (varName : Bytes) :
    (((blockLines items).foldl (MIMESubHeader.parseOptionValue random)
        { MIMESubHeader.new with maxOptions := maxOptions }).getOptionsByName varName).map
        (fun option => (option.origName, trim option.origValue)) =
      (readBlock maxOptions items).filter fun field => HTTP.toUpper field.1 = HTTP.toUpper varName := by
  have read := congrArg (List.map trimmed)
    (MIMESubHeader.values_foldl_lines random maxOptions (blockLines items) (HTTP.toUpper varName))
  rw [List.map_map] at read
  rw [readBlock, List.filter_map]
  exact read

section
variable {items : List HeaderItem} (room : (fields items).length ≤ maxOptions)
include room

theorem readBlock_of_separated (separated : ∀ entry ∈ fields items, entry.behind.head? = some 32) :
    readBlock maxOptions items = (stored items).map trimmed := by
  rw [readBlock, blockLines, foldl_items maxOptions items separated (by rwa [List.length_nil, Nat.zero_add])]
  rw [show restate (stray items) [] = [] from rfl, List.append_nil, List.reverse_reverse]

/-- The groups of what is read are those of what the block says exactly when every field is kept. -/
theorem groups_iff :
    (∀ varName, ((readBlock maxOptions items).filter fun field => HTTP.toUpper field.1 = HTTP.toUpper varName) =
      (meaning items).filter fun field => HTTP.toUpper field.1 = HTTP.toUpper varName) ↔ Kept items := by
  rw [kept_iff]
  constructor
  · intro groups
    have every : ∀ key, ((readBlock maxOptions items).filter fun field => decide (HTTP.toUpper field.1 = key)) =
        (meaning items).filter fun field => decide (HTTP.toUpper field.1 = key) := by
      intro key
      by_cases image : ∃ name, key = HTTP.toUpper name
      · obtain ⟨name, rfl⟩ := image
        exact groups name
      · have none : ∀ l : List Field, (l.filter fun field => decide (HTTP.toUpper field.1 = key)) = [] := by
          intro l
          rw [List.filter_eq_nil_iff]
          intro field _ same
          exact image ⟨field.1, (of_decide_eq_true same).symm⟩
        rw [none, none]
    have same := perm_of_groups (fun field : Field => HTTP.toUpper field.1) every
    have fewer : ([] : List Field).length + (fields items).length ≤ maxOptions := by rwa [List.length_nil, Nat.zero_add]
    have separated : ∀ entry ∈ fields items, entry.behind.head? = some 32 := by
      apply separated_of_foldl maxOptions items fewer
      · have length := same.length_eq
        rw [readBlock, List.length_map, List.length_reverse, meaning, List.length_map] at length
        rw [List.length_nil, Nat.zero_add]
        exact length
      · intro name member
        obtain ⟨field, inside, rfl⟩ := List.mem_map.mp member
        have read : trimmed field ∈ readBlock maxOptions items :=
          List.mem_map_of_mem (List.mem_reverse.mpr inside)
        obtain ⟨entry, -, said⟩ := List.mem_map.mp (same.mem_iff.mp read)
        have named : entry.name = field.1 := congrArg Prod.fst said
        rw [← named]
        exact fun colon => (entry.named 58 colon).1 rfl
    refine ⟨separated, ?_⟩
    rw [readBlock_of_separated maxOptions room separated] at every
    apply eq_of_groups (fun field : Field => HTTP.toUpper field.1) _ every
    have names := congrArg (List.map HTTP.toUpper) (names_stored items)
    rw [List.map_map, List.map_map] at names
    rw [meaning, List.map_map, List.map_map]
    exact names
  · rintro ⟨separated, same⟩ varName
    rw [readBlock_of_separated maxOptions room separated, same]

theorem stores_fields (kept : Kept items) (short : ∀ line ∈ blockLines items, line.length + crlf.length ≤ limit.size)
    (few : (blockLines items).length ≤ 4096) : StoresFields limit maxOptions items := by
  intro random writes later filled flat
  have each := isLine_blockLines items
  obtain ⟨finished, user, consumed⟩ := MIMESubHeader.run_lines random limit
    (fun line member => ⟨each line member, short line member⟩) few maxOptions filled flat
  refine ⟨finished, consumed, ?_⟩
  intro varName
  rw [user, getOptionsByName_foldl]
  exact (groups_iff maxOptions room).mpr kept varName

theorem of_stores_fields (stores : StoresFields limit maxOptions items) :
    Kept items ∧ (∀ line ∈ blockLines items, line.length + crlf.length ≤ limit.size) ∧
      (blockLines items).length ≤ 4096 := by
  have each := isLine_blockLines items
  have filled : ∀ buf ∈ [blockOf (blockLines items)], buf ≠ [] := by
    intro buf member
    rw [List.mem_singleton.mp member]
    exact MIMESubHeader.blockOf_ne_nil _
  have flat : [blockOf (blockLines items)].flatten = blockOf (blockLines items) ++ [] := by
    rw [List.flatten_singleton, List.append_nil]
  obtain ⟨finished, -, read⟩ := stores MIMESubHeader.letters _ [] filled flat
  obtain ⟨short, few⟩ := MIMESubHeader.of_run_single MIMESubHeader.letters limit each maxOptions finished
  refine ⟨(groups_iff maxOptions room).mp ?_, short, few⟩
  -- what is read is what the lines make of an empty block
  obtain ⟨-, user, -⟩ := MIMESubHeader.run_lines MIMESubHeader.letters limit
    (fun line member => ⟨each line member, short line member⟩) few maxOptions filled flat
  rw [user] at read
  intro varName
  rw [← getOptionsByName_foldl maxOptions MIMESubHeader.letters]
  exact read varName

/-- A block is read as it says exactly when its fields are kept, its lines are short enough and there are turns for
them. -/
theorem storesFields_iff : StoresFields limit maxOptions items ↔
    Kept items ∧ (∀ line ∈ blockLines items, line.length + crlf.length ≤ limit.size) ∧
      (blockLines items).length ≤ 4096 := by
  constructor
  · exact of_stores_fields limit maxOptions room
  · rintro ⟨kept, short, few⟩
    exact stores_fields limit maxOptions room kept short few

end

end

/-- A value on two lines. -/
def folded : HeaderField where
  name := ascii "Subject"
  behind := ascii " a"
  continuations := [⟨ascii " b", by decide, by unfold PlainText; decide⟩]
  starts := by decide
  named := by decide
  text := by unfold PlainText; decide

/-- A field that is not continued. -/
def host : HeaderField where
  name := ascii "Host"
  behind := ascii " \t a "
  continuations := []
  starts := by decide
  named := by decide
  text := by unfold PlainText; decide

theorem storesFields_iff_host : StoresFields .default 32 [.field host] ↔
    Kept [.field host] ∧ (∀ line ∈ blockLines [.field host], line.length + crlf.length ≤ LineLimit.default.size) ∧
      (blockLines [.field host]).length ≤ 4096 := by
  apply storesFields_iff
  decide

/-- Of a value on two lines only the second is stored. -/
theorem not_storesFields : ¬StoresFields .default 32 [.field folded] := by
  intro stores
  have kept := (of_stores_fields .default 32 (by decide) stores).1
  exact absurd kept.2.1 (by decide)

end HeaderItem

end Mantids.MIME
