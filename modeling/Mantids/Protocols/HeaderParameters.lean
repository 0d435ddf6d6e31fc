import Mantids.Protocols.QuotedTexts

/-! Values of header lines with parameters, quoted or not, and the stages of the loop over the quoted texts. -/

set_option autoImplicit false

namespace Mantids.MIME.HeaderParameters

open Library Memory

/-! ## Values with parameters -/

def isPrintable (byte : UInt8) : Bool := 32 ≤ byte && byte ≤ 126

/-- Without a blank, a quotation mark and a semicolon. -/
def isToken (byte : UInt8) : Bool := 33 ≤ byte && byte ≤ 126 && byte ≠ quotation && byte ≠ semicolon

structure Parameter where
  name : Bytes
  text : Bytes
  quoted : Bool
  named : name ≠ []
  nameBytes : ∀ byte ∈ name, isToken byte = true ∧ byte ≠ equalsSign
  tokenBytes : quoted = false → ∀ byte ∈ text, isToken byte = true
  quotedBytes : quoted = true → ∀ byte ∈ text, isPrintable byte = true ∧ byte ≠ quotation

structure HeaderValue where
  value : Bytes
  parameters : List Parameter
  valueBytes : ∀ byte ∈ value, isPrintable byte = true ∧ byte ≠ quotation ∧ byte ≠ semicolon
  trimmed : value.head? ≠ some 32 ∧ value.getLast? ≠ some 32

namespace Parameter

/-- What stands between the parameter before and the text of this one. -/
def lead (parameter : Parameter) : Bytes := [semicolon, 32] ++ parameter.name ++ [equalsSign]

def written (parameter : Parameter) : Bytes :=
  parameter.lead ++ if parameter.quoted then quote parameter.text else parameter.text

def entry (parameter : Parameter) : Bytes × Bytes := (parameter.name, parameter.text)

end Parameter

/-- `v; n1=p1; ...; nk=pk` -/
def HeaderValue.written (header : HeaderValue) : Bytes := header.value ++ header.parameters.flatMap Parameter.written

/-! ## Where it goes wrong -/

/-- One more text, unless it is known. -/
def note (seen : List Bytes) (parameter : Parameter) : List Bytes :=
  if parameter.quoted ∧ parameter.text ∉ seen then seen ++ [parameter.text] else seen

/-- The quoted texts in the order of their first appearance; their places are their numbers. -/
def texts (parameters : List Parameter) : List Bytes := parameters.foldl note []

/-- What stands between a quoted text and the next one, and that text. -/
def nextQuoted : List Parameter → Option (Bytes × Bytes)
  | [] => none
  | parameter :: rest =>
    if parameter.quoted then some (parameter.lead, parameter.text)
    else (nextQuoted rest).map fun next => (parameter.written ++ next.1, next.2)

/-- What stands between two quoted texts, if it is quoted itself, does not have a number below that of the first, unless
it is above that of the second. -/
def Clear (parameters : List Parameter) : Prop :=
  ∀ parameter rest, parameter :: rest <:+ parameters → parameter.quoted = true → ∀ next ∈ nextQuoted rest,
    ¬((texts parameters).idxOf next.1 < (texts parameters).idxOf parameter.text ∧
      (texts parameters).idxOf next.1 ≤ (texts parameters).idxOf next.2)

/-! ## One turn of the loop -/

theorem isToken_ne {byte : UInt8} (token : isToken byte = true) :
    byte ≠ quotation ∧ byte ≠ semicolon ∧ HTTP.isSpace byte = false ∧ isPrintable byte = true := by
  revert token
  revert byte
  apply Helpers.Encoders.forall_byte
  decide +kernel

namespace Parameter

variable (parameter : Parameter)

theorem plain_name : quotation ∉ parameter.name :=
  fun member => (isToken_ne (parameter.nameBytes _ member).1).1 rfl

theorem plain_lead : quotation ∉ parameter.lead := by
  unfold lead
  simp only [List.mem_append, not_or]
  exact ⟨⟨by decide, parameter.plain_name⟩, by decide⟩

theorem plain_text : quotation ∉ parameter.text := by
  intro member
  cases kind : parameter.quoted with
  | false => exact (isToken_ne (parameter.tokenBytes kind _ member)).1 rfl
  | true => exact (parameter.quotedBytes kind _ member).2 rfl

/-- Each parameter brings one semicolon of its own. -/
theorem semicolon_lead : parameter.lead.count semicolon = 1 := by
  have absent : semicolon ∉ parameter.name := fun member => (isToken_ne (parameter.nameBytes _ member).1).2.1 rfl
  unfold lead
  rw [List.count_append, List.count_append, List.count_eq_zero.mpr absent]
  decide

end Parameter

section
variable (secureReplace : RandomString) (seen : List Bytes)

/-- A quoted parameter whose text is still in its place. -/
def Pending (parameter : Parameter) : Prop := parameter.quoted = true ∧ parameter.text ∉ seen

/-- A parameter once the texts seen have been replaced. -/
def shown (parameter : Parameter) : Bytes :=
  parameter.lead ++
    if parameter.quoted then
      if parameter.text ∈ seen then staticMessage secureReplace (seen.idxOf parameter.text) else quote parameter.text
    else parameter.text

end

section
variable {secureReplace : RandomString} {seen : List Bytes} {parameter : Parameter}

theorem shown_pending (pending : Pending seen parameter) :
    shown secureReplace seen parameter = parameter.lead ++ quote parameter.text := by
  rw [shown, if_pos pending.1, if_neg pending.2]

theorem shown_known (quoted : parameter.quoted = true) (known : parameter.text ∈ seen) :
    shown secureReplace seen parameter =
      parameter.lead ++ staticMessage secureReplace (seen.idxOf parameter.text) := by
  rw [shown, if_pos quoted, if_pos known]

theorem shown_token (token : parameter.quoted = false) : shown secureReplace seen parameter = parameter.written := by
  rw [shown, Parameter.written, token]
  rfl

theorem plain_shown (passed : ¬Pending seen parameter) : quotation ∉ shown secureReplace seen parameter := by
  unfold shown
  rw [List.mem_append, not_or]
  refine ⟨parameter.plain_lead, ?_⟩
  by_cases quoted : parameter.quoted = true
  · have known : parameter.text ∈ seen := by
      by_contra fresh
      exact passed ⟨quoted, fresh⟩
    rw [if_pos quoted, if_pos known]
    exact (plain_staticMessage _ _).1
  · rw [if_neg quoted]
    exact parameter.plain_text

theorem outside_shown (rest : Bytes) :
    outside false (shown secureReplace seen parameter ++ rest) = outside false rest + 1 := by
  have behind : ∀ text, quotation ∉ text → semicolon ∉ text →
      outside false (parameter.lead ++ text ++ rest) = outside false rest + 1 := by
    intro text plain absent
    rw [List.append_assoc, outside_plain parameter.plain_lead, outside_plain plain, parameter.semicolon_lead,
      List.count_eq_zero.mpr absent]
    simp only [Bool.false_eq_true, if_false]
    omega
  cases kind : parameter.quoted with
  | false =>
    rw [shown_token kind, Parameter.written, if_neg (by simp [kind])]
    exact behind _ parameter.plain_text fun member => (isToken_ne (parameter.tokenBytes kind _ member)).2.1 rfl
  | true =>
    by_cases known : parameter.text ∈ seen
    · rw [shown_known kind known]
      exact behind _ (plain_staticMessage _ _).1 (plain_staticMessage _ _).2
    · rw [shown_pending ⟨kind, known⟩, List.append_assoc, outside_plain parameter.plain_lead,
        outside_quote parameter.plain_text, parameter.semicolon_lead]
      simp only [Bool.false_eq_true, if_false]
      omega

theorem outside_shown_all (secureReplace : RandomString) (seen : List Bytes) (parameters : List Parameter) (rest : Bytes) :
    outside false (parameters.flatMap (shown secureReplace seen) ++ rest) = outside false rest + parameters.length := by
  induction parameters with
  | nil => simp
  | cons parameter later ih =>
    rw [List.flatMap_cons, List.append_assoc, outside_shown, ih, List.length_cons]
    omega

/-- What is in front of a mark is what stands between two quoted texts that are next to each other. -/
theorem nextQuoted_of_begins {text : Bytes} (untagged : Untagged secureReplace text) {parameters : List Parameter}
    (plain : quotation ∉ text) (begins : text ++ [quotation] <+: parameters.flatMap (shown secureReplace seen)) :
    ∃ next ∈ nextQuoted parameters, next.1 = text ∧ next.2 ∉ seen := by
  induction parameters generalizing text with
  | nil => simp at begins
  | cons parameter rest ih =>
    rw [List.flatMap_cons] at begins
    cases kind : parameter.quoted with
    | false =>
      have passed : ¬Pending seen parameter := fun pending => Bool.false_ne_true (kind.symm.trans pending.1)
      obtain ⟨later, rfl, further⟩ := begins_behind (plain_shown passed) begins
      rw [List.mem_append, not_or] at plain
      obtain ⟨next, found, gap, fresh⟩ := ih (untagged_of_inside (List.suffix_append _ _).isInfix untagged) plain.2 further
      refine ⟨(parameter.written ++ next.1, next.2), ?_, ?_, fresh⟩
      · rw [nextQuoted, if_neg (by simp [kind]), Option.mem_def.mp found]
        rfl
      · rw [shown_token kind, gap]
    | true =>
      by_cases known : parameter.text ∈ seen
      · -- the tag would be in the text
        have passed : ¬Pending seen parameter := fun pending => pending.2 known
        obtain ⟨later, rfl, -⟩ := begins_behind (plain_shown passed) begins
        rw [shown_known kind known] at untagged
        refine absurd (tag_staticMessage (seen.idxOf parameter.text)) (untagged_of_inside ?_ untagged)
        exact ⟨parameter.lead, later, rfl⟩
      · rw [shown_pending ⟨kind, known⟩, List.append_assoc] at begins
        obtain ⟨later, rfl, further⟩ := begins_behind parameter.plain_lead begins
        rw [List.mem_append, not_or] at plain
        rw [quote_append] at further
        have whole := eq_nil_of_begins plain.2 further
        refine ⟨(parameter.lead, parameter.text), ?_, ?_, known⟩
        · rw [nextQuoted, if_pos kind]
          rfl
        · rw [whole, List.append_nil]

/-- Such a text is in front of the mark where the next quoted text is still in its place. -/
theorem begins_of_nextQuoted {parameters : List Parameter} {next : Bytes × Bytes} (found : next ∈ nextQuoted parameters)
    (fresh : next.2 ∉ seen) :
    next.1 ++ [quotation] <+: parameters.flatMap (shown secureReplace seen) := by
  induction parameters generalizing next with
  | nil => cases found
  | cons parameter rest ih =>
    rw [List.flatMap_cons]
    cases kind : parameter.quoted with
    | false =>
      rw [nextQuoted, if_neg (by simp [kind])] at found
      obtain ⟨later, behind, rfl⟩ := Option.map_eq_some_iff.mp found
      rw [shown_token kind, List.append_assoc, List.prefix_append_right_inj]
      exact ih behind fresh
    | true =>
      rw [nextQuoted, if_pos kind] at found
      cases found
      rw [shown_pending ⟨kind, fresh⟩, List.append_assoc, List.prefix_append_right_inj]
      exact ⟨parameter.text ++ [quotation] ++ rest.flatMap (shown secureReplace seen), by simp [quote]⟩

theorem semicolon_of_begins {text : Bytes} {parameters : List Parameter}
    (begins : text ++ [quotation] <+: parameters.flatMap (shown secureReplace seen)) : 0 < text.count semicolon := by
  cases parameters with
  | nil => simp at begins
  | cons parameter rest =>
    cases text with
    | nil => exact absurd (List.cons_prefix_cons.mp begins).1 (by decide)
    | cons byte text =>
      rw [show byte = semicolon from (List.cons_prefix_cons.mp begins).1, List.count_cons_self]
      exact Nat.succ_pos _

/-- No quoted text that is still in its place, but for the one looked for, has it behind itself. -/
def Apart (seen : List Bytes) (text : Bytes) (parameters : List Parameter) : Prop :=
  ∀ parameter rest, parameter :: rest <:+ parameters → Pending seen parameter → parameter.text ≠ text →
    ∀ next ∈ nextQuoted rest, next.1 = text → next.2 ∈ seen

section
variable {text : Bytes} (fresh : text ∉ seen) (plain : quotation ∉ text)
include fresh plain

theorem replaceAll_shown_cons (rest : Bytes)
    (apart : Pending seen parameter → parameter.text ≠ text → ¬text ++ [quotation] <+: rest) :
    replaceAll (quote text) (staticMessage secureReplace seen.length) (shown secureReplace seen parameter ++ rest) =
      shown secureReplace (seen ++ [text]) parameter ++
        replaceAll (quote text) (staticMessage secureReplace seen.length) rest := by
  have passes : ∀ front, quotation ∉ front →
      replaceAll (quote text) (staticMessage secureReplace seen.length) (front ++ rest) =
        front ++ replaceAll (quote text) (staticMessage secureReplace seen.length) rest :=
    fun front before => replaceAll_pass before rest
  cases kind : parameter.quoted with
  | false =>
    have passed : ¬Pending seen parameter := fun pending => Bool.false_ne_true (kind.symm.trans pending.1)
    rw [passes _ (plain_shown passed), shown_token kind, shown_token kind]
  | true =>
    by_cases known : parameter.text ∈ seen
    · have passed : ¬Pending seen parameter := fun pending => pending.2 known
      rw [passes _ (plain_shown passed), shown_known kind known, shown_known kind (List.mem_append_left _ known),
        List.idxOf_append_of_mem known]
    · rw [shown_pending ⟨kind, known⟩, List.append_assoc]
      have lead : ∀ more, replaceAll (quote text) (staticMessage secureReplace seen.length) (parameter.lead ++ more) =
          parameter.lead ++ replaceAll (quote text) (staticMessage secureReplace seen.length) more :=
        fun more => replaceAll_pass parameter.plain_lead more
      rw [lead]
      by_cases same : parameter.text = text
      · have inside : parameter.text ∈ seen ++ [text] := List.mem_append_right seen (List.mem_singleton.mpr same)
        have filled : quote text ≠ [] := List.cons_ne_nil _ _
        rw [same, replaceAll_occurrence filled, shown_known kind inside, same, List.idxOf_append_of_notMem fresh,
          List.idxOf_cons_self, Nat.add_zero, List.append_assoc]
      · have absent : parameter.text ∉ seen ++ [text] := by
          rw [List.mem_append, List.mem_singleton]
          exact not_or.mpr ⟨known, same⟩
        have closing : ¬quote text <+: quotation :: rest :=
          fun begins => apart ⟨kind, known⟩ same (List.cons_prefix_cons.mp begins).2
        have between : replaceAll (quote text) (staticMessage secureReplace seen.length)
              (parameter.text ++ quotation :: rest) =
            parameter.text ++ replaceAll (quote text) (staticMessage secureReplace seen.length) (quotation :: rest) :=
          replaceAll_pass parameter.plain_text _
        have opening := not_begins_quote plain parameter.plain_text same rest
        rw [quote_append, replaceAll_other opening, between, replaceAll_other closing, shown_pending ⟨kind, absent⟩]
        simp [quote]

theorem replaceAll_shown (untagged : Untagged secureReplace text) {parameters : List Parameter}
    (apart : Apart seen text parameters) :
    replaceAll (quote text) (staticMessage secureReplace seen.length) (parameters.flatMap (shown secureReplace seen)) =
      parameters.flatMap (shown secureReplace (seen ++ [text])) := by
  induction parameters with
  | nil => rfl
  | cons parameter rest ih =>
    have later : Apart seen text rest :=
      fun other more tail => apart other more (tail.trans (List.suffix_cons parameter rest))
    have here : Pending seen parameter → parameter.text ≠ text →
        ¬text ++ [quotation] <+: rest.flatMap (shown secureReplace seen) := by
      intro pending different begins
      obtain ⟨next, found, gap, unseen⟩ := nextQuoted_of_begins untagged plain begins
      exact unseen (apart parameter rest List.suffix_rfl pending different next found gap)
    rw [List.flatMap_cons, replaceAll_shown_cons fresh plain _ here, ih later, List.flatMap_cons]

/-- Where what stands between two quoted texts is taken for the text, a semicolon is lost. -/
theorem outside_replaceAll_lt {parameters : List Parameter} (clash : ¬Apart seen text parameters) :
    outside false (replaceAll (quote text) (staticMessage secureReplace seen.length)
      (parameters.flatMap (shown secureReplace seen))) < parameters.length := by
  induction parameters with
  | nil => exact absurd (fun parameter rest tail => absurd (List.suffix_nil.mp tail) (List.cons_ne_nil _ _)) clash
  | cons parameter rest ih =>
    rw [List.flatMap_cons, List.length_cons]
    by_cases here : Pending seen parameter ∧ parameter.text ≠ text ∧
        text ++ [quotation] <+: rest.flatMap (shown secureReplace seen)
    case pos =>
      obtain ⟨pending, different, begins⟩ := here
      have lost := semicolon_of_begins begins
      obtain ⟨behind, whole⟩ := begins
      have total : outside false (rest.flatMap (shown secureReplace seen)) = rest.length := by
        have all := outside_shown_all secureReplace seen rest []
        rwa [List.append_nil, outside, Nat.zero_add] at all
      rw [← whole, List.append_assoc, List.singleton_append, outside_plain plain, outside, if_pos rfl] at total
      have shape : shown secureReplace seen parameter ++ rest.flatMap (shown secureReplace seen) =
          parameter.lead ++ quotation :: (parameter.text ++ (quote text ++ behind)) := by
        rw [shown_pending pending, ← whole]
        simp [quote]
      have opening := not_begins_quote plain parameter.plain_text different (text ++ quotation :: behind)
      have filled : quote text ≠ [] := List.cons_ne_nil _ _
      have passes : ∀ front more, quotation ∉ front →
          replaceAll (quote text) (staticMessage secureReplace seen.length) (front ++ more) =
            front ++ replaceAll (quote text) (staticMessage secureReplace seen.length) more :=
        fun front more before => replaceAll_pass before more
      have less := (replaceAll_shrinks plain (plain_staticMessage secureReplace seen.length) behind).2 true
      rw [shape, passes _ _ parameter.plain_lead, quote_append, replaceAll_other opening, ← quote_append,
        passes _ _ parameter.plain_text, replaceAll_occurrence filled, outside_plain parameter.plain_lead, outside,
        if_pos rfl, outside_plain parameter.plain_text, outside_plain (plain_staticMessage _ _).1, parameter.semicolon_lead]
      simp only [Bool.false_eq_true, if_false, Bool.not_false, if_true] at total ⊢
      omega
    case neg =>
      have passes : Pending seen parameter → parameter.text ≠ text →
          ¬text ++ [quotation] <+: rest.flatMap (shown secureReplace seen) :=
        fun pending different begins => here ⟨pending, different, begins⟩
      have later : ¬Apart seen text rest := by
        intro apart
        apply clash
        intro other more tail pending different next found gap
        rcases List.suffix_cons_iff.mp tail with whole | inside
        · cases whole
          by_contra unseen
          refine passes pending different ?_
          rw [← gap]
          exact begins_of_nextQuoted found unseen
        · exact apart other more inside pending different next found gap
      rw [replaceAll_shown_cons fresh plain _ passes, outside_shown]
      exact Nat.succ_lt_succ (ih later)

end

/-! ## The loop -/

theorem even_shown (secureReplace : RandomString) (seen : List Bytes) (parameters : List Parameter) :
    Even ((parameters.flatMap (shown secureReplace seen)).count quotation) := by
  induction parameters with
  | nil => exact ⟨0, rfl⟩
  | cons parameter rest ih =>
    rw [List.flatMap_cons, List.count_append]
    apply Even.add _ ih
    by_cases pending : Pending seen parameter
    · refine ⟨1, ?_⟩
      rw [shown_pending pending, quote]
      simp [List.count_eq_zero.mpr parameter.plain_lead, List.count_eq_zero.mpr parameter.plain_text]
    · exact ⟨0, List.count_eq_zero.mpr (plain_shown pending)⟩

theorem next_pending (seen : List Bytes) (parameters : List Parameter) :
    (∀ parameter ∈ parameters, ¬Pending seen parameter) ∨
      ∃ before parameter after, parameters = before ++ parameter :: after ∧
        (∀ other ∈ before, ¬Pending seen other) ∧ Pending seen parameter := by
  induction parameters with
  | nil => exact .inl fun parameter member => absurd member List.not_mem_nil
  | cons parameter rest ih =>
    by_cases pending : Pending seen parameter
    · exact .inr ⟨[], parameter, rest, rfl, fun other member => absurd member List.not_mem_nil, pending⟩
    · rcases ih with none | ⟨before, first, after, rfl, earlier, found⟩
      · exact .inl (List.forall_mem_cons.mpr ⟨pending, none⟩)
      · exact .inr ⟨parameter :: before, first, after, rfl, List.forall_mem_cons.mpr ⟨pending, earlier⟩, found⟩

theorem plain_flatMap {parameters : List Parameter} (none : ∀ parameter ∈ parameters, ¬Pending seen parameter) :
    quotation ∉ parameters.flatMap (shown secureReplace seen) := by
  rw [List.mem_flatMap]
  rintro ⟨parameter, member, mark⟩
  exact plain_shown (none parameter member) mark

theorem foldl_note_none {parameters : List Parameter} (none : ∀ parameter ∈ parameters, ¬Pending seen parameter) :
    parameters.foldl note seen = seen := by
  induction parameters with
  | nil => rfl
  | cons parameter rest ih =>
    rw [List.foldl_cons, show note seen parameter = seen from if_neg (none parameter List.mem_cons_self)]
    exact ih fun other member => none other (.tail _ member)

theorem prefix_foldl_note (seen : List Bytes) (parameters : List Parameter) : seen <+: parameters.foldl note seen := by
  induction parameters generalizing seen with
  | nil => exact List.prefix_rfl
  | cons parameter rest ih =>
    have first : seen <+: note seen parameter := by
      unfold note
      split
      · exact List.prefix_append _ _
      · exact List.prefix_rfl
    exact first.trans (ih _)

/-- A stage of the loop: it is over, or the next text of the table is taken out. -/
theorem stage_cases (secureReplace : RandomString) (seen : List Bytes) (parameters : List Parameter) :
    (parameters.foldl note seen = seen ∧ staticText (parameters.flatMap (shown secureReplace seen)) = none) ∨
      ∃ parameter ∈ parameters, Pending seen parameter ∧
        staticText (parameters.flatMap (shown secureReplace seen)) = some parameter.text ∧
        parameters.foldl note (seen ++ [parameter.text]) = parameters.foldl note seen := by
  rcases next_pending seen parameters with none | ⟨before, parameter, after, rfl, earlier, pending⟩
  · exact .inl ⟨foldl_note_none none, staticText_plain (plain_flatMap none)⟩
  · refine .inr ⟨parameter, List.mem_append_right _ List.mem_cons_self, pending, ?_, ?_⟩
    · have front : quotation ∉ before.flatMap (shown secureReplace seen) ++ parameter.lead := by
        rw [List.mem_append, not_or]
        exact ⟨plain_flatMap earlier, parameter.plain_lead⟩
      rw [List.flatMap_append, List.flatMap_cons, shown_pending pending, List.append_assoc, ← List.append_assoc]
      exact staticText_quote front parameter.plain_text _
    · have still : ∀ other ∈ before, ¬Pending (seen ++ [parameter.text]) other :=
        fun other member later => earlier other member ⟨later.1, fun known => later.2 (List.mem_append_left _ known)⟩
      have known : ¬Pending (seen ++ [parameter.text]) parameter :=
        fun later => later.2 (List.mem_append_right seen List.mem_cons_self)
      rw [List.foldl_append, List.foldl_append, foldl_note_none still, foldl_note_none earlier, List.foldl_cons,
        List.foldl_cons, show note (seen ++ [parameter.text]) parameter = seen ++ [parameter.text] from if_neg known,
        show note seen parameter = seen ++ [parameter.text] from if_pos pending]

section
variable {value : Bytes} {parameters : List Parameter} (plain : quotation ∉ value)
  (untagged : ∀ parameter ∈ parameters, Untagged secureReplace parameter.text)
include plain untagged

/-- Where each text of the table is apart, the loop replaces each quoted text by its number. -/
theorem takeOut_apart {turns : Nat} {seen : List Bytes}
    (enough : (parameters.flatMap (shown secureReplace seen)).count quotation ≤ 2 * turns)
    (apart : ∀ front text, front ++ [text] <+: parameters.foldl note seen → Apart front text parameters) :
    takeOut secureReplace turns seen (value ++ parameters.flatMap (shown secureReplace seen)) =
      (parameters.foldl note seen,
        value ++ parameters.flatMap (shown secureReplace (parameters.foldl note seen))) := by
  induction turns generalizing seen with
  | zero =>
    rcases stage_cases secureReplace seen parameters with ⟨all, -⟩ | ⟨parameter, member, pending, found, next⟩
    · rw [takeOut, all]
    · obtain ⟨-, pairs, marks⟩ := count_replaceAll found (plain_staticMessage secureReplace 0)
      omega
  | succ turns ih =>
    rw [takeOut, staticText_front plain]
    rcases stage_cases secureReplace seen parameters with ⟨all, none⟩ | ⟨parameter, member, pending, found, next⟩
    · rw [none, all]
    · have here : Apart seen parameter.text parameters := by
        apply apart
        rw [← next]
        exact prefix_foldl_note _ _
      obtain ⟨-, pairs, marks⟩ := count_replaceAll found (plain_staticMessage secureReplace seen.length)
      have passes : replaceAll (quote parameter.text) (staticMessage secureReplace seen.length)
            (value ++ parameters.flatMap (shown secureReplace seen)) =
          value ++ replaceAll (quote parameter.text) (staticMessage secureReplace seen.length)
            (parameters.flatMap (shown secureReplace seen)) := replaceAll_pass plain _
      have replaced := replaceAll_shown pending.2 parameter.plain_text (untagged parameter member) here
      rw [replaced] at marks passes
      rw [found]
      simp only
      rw [← quote, passes, ← next]
      apply ih
      · omega
      · rw [next]
        exact apart

omit plain untagged in
theorem ne_of_table {seen front all : List Bytes} {text : Bytes} (later : seen <+: front) (table : front ++ [text] <+: all) :
    all ≠ seen := by
  rintro rfl
  have short := table.length_le
  rw [List.length_append, List.length_singleton] at short
  have long := later.length_le
  omega

/-- Where one is not, the loop leaves too few semicolons. -/
theorem takeOut_clash {turns : Nat} {seen : List Bytes}
    (enough : (parameters.flatMap (shown secureReplace seen)).count quotation ≤ 2 * turns)
    {all front : List Bytes} {text : Bytes} (whole : parameters.foldl note seen = all) (later : seen <+: front)
    (table : front ++ [text] <+: all) (clash : ¬Apart front text parameters) :
    ∃ left, (takeOut secureReplace turns seen (value ++ parameters.flatMap (shown secureReplace seen))).2 =
        value ++ semicolon :: left ∧ left.count semicolon + 1 < parameters.length := by
  induction turns generalizing seen with
  | zero =>
    rcases stage_cases secureReplace seen parameters with ⟨done, -⟩ | ⟨parameter, member, pending, found, next⟩
    · exact absurd (whole.symm.trans done) (ne_of_table later table)
    · obtain ⟨-, pairs, marks⟩ := count_replaceAll found (plain_staticMessage secureReplace 0)
      omega
  | succ turns ih =>
    rw [takeOut, staticText_front plain]
    rcases stage_cases secureReplace seen parameters with ⟨done, -⟩ | ⟨parameter, member, pending, found, next⟩
    · exact absurd (whole.symm.trans done) (ne_of_table later table)
    · rw [whole] at next
      have upTo : seen ++ [parameter.text] <+: all := by
        rw [← next]
        exact prefix_foldl_note _ _
      obtain ⟨-, pairs, marks⟩ := count_replaceAll found (plain_staticMessage secureReplace seen.length)
      have passes : ∀ before body, quotation ∉ before →
          replaceAll (quote parameter.text) (staticMessage secureReplace seen.length) (before ++ body) =
            before ++ replaceAll (quote parameter.text) (staticMessage secureReplace seen.length) body :=
        fun before body absent => replaceAll_pass absent body
      rw [found]
      simp only
      rw [← quote, passes _ _ plain]
      by_cases here : Apart seen parameter.text parameters
      case pos =>
        have replaced := replaceAll_shown pending.2 parameter.plain_text (untagged parameter member) here
        have further : seen ++ [parameter.text] <+: front := by
          apply List.prefix_of_prefix_length_le upTo ((List.prefix_append front [text]).trans table)
          rw [List.length_append, List.length_singleton]
          by_contra short
          have same : seen = front := later.eq_of_length_le (by omega)
          rw [same] at upTo here
          have both : front ++ [parameter.text] <+: front ++ [text] :=
            List.prefix_of_prefix_length_le upTo table (by simp)
          have texts : parameter.text = text :=
            (List.cons_prefix_cons.mp ((List.prefix_append_right_inj front).mp both)).1
          rw [texts] at here
          exact clash here
        rw [replaced] at marks ⊢
        exact ih (by omega) next further
      case neg =>
        -- the first semicolon stays, and there are too few behind it
        have less : outside false (replaceAll (quote parameter.text) (staticMessage secureReplace seen.length)
            (parameters.flatMap (shown secureReplace seen))) < parameters.length :=
          outside_replaceAll_lt pending.2 parameter.plain_text here
        have even := even_shown secureReplace seen parameters
        cases parameters with
        | nil => cases member
        | cons first rest =>
          obtain ⟨behind, shape⟩ : ∃ behind,
              (first :: rest).flatMap (shown secureReplace seen) = [semicolon] ++ behind := ⟨_, rfl⟩
          rw [shape] at marks less enough even ⊢
          rw [passes _ _ (by decide)] at marks less ⊢
          generalize replaceAll (quote parameter.text) (staticMessage secureReplace seen.length) behind = body at marks less ⊢
          have own : ∀ body : Bytes, ([semicolon] ++ body).count quotation = body.count quotation ∧
              outside false ([semicolon] ++ body) = outside false body + 1 := fun body => ⟨rfl, rfl⟩
          rw [(own _).1] at enough even
          rw [(own _).1, (own _).1] at marks
          rw [(own _).2] at less
          rw [← List.append_assoc]
          have front : quotation ∉ value ++ [semicolon] := by
            rw [List.mem_append, not_or]
            exact ⟨plain, by decide⟩
          have evenLater : Even (body.count quotation) := by
            rw [marks] at even
            exact (Nat.even_add.mp even).mpr (even_two_mul _)
          have turnsLater : body.count quotation ≤ 2 * turns := by omega
          obtain ⟨left, ends, -, few⟩ := takeOut_bounded front evenLater turnsLater (seen ++ [parameter.text])
          refine ⟨left, ?_, Nat.lt_of_le_of_lt (Nat.succ_le_succ few) less⟩
          rw [ends, List.append_assoc]
          rfl

end

end

/-! ## The table -/

theorem mem_foldl_note {seen : List Bytes} {parameters : List Parameter} {text : Bytes} :
    text ∈ parameters.foldl note seen ↔
      text ∈ seen ∨ ∃ parameter ∈ parameters, parameter.quoted = true ∧ parameter.text = text := by
  induction parameters generalizing seen with
  | nil => simp
  | cons parameter rest ih =>
    have first : text ∈ note seen parameter ↔ text ∈ seen ∨ parameter.quoted = true ∧ parameter.text = text := by
      unfold note
      split
      case isTrue pending => simp [pending.1, eq_comm]
      case isFalse passed =>
        constructor
        · exact .inl
        · rintro (known | ⟨quoted, rfl⟩)
          · exact known
          · by_contra fresh
            exact passed ⟨quoted, fresh⟩
    rw [List.foldl_cons, ih, first, or_assoc, List.exists_mem_cons_iff]

theorem nodup_foldl_note {seen : List Bytes} (parameters : List Parameter) (nodup : seen.Nodup) :
    (parameters.foldl note seen).Nodup := by
  induction parameters generalizing seen with
  | nil => exact nodup
  | cons parameter rest ih =>
    apply ih
    unfold note
    split
    case isTrue pending =>
      rw [List.nodup_append]
      exact ⟨nodup, List.nodup_singleton _, fun one known other single same =>
        pending.2 (List.mem_singleton.mp single ▸ same ▸ known)⟩
    case isFalse => exact nodup

/-- Where a text has its first place, the numbers tell what is in front of it. -/
theorem idxOf_table {front more : List Bytes} {text : Bytes} (first : text ∉ front) (other : Bytes) :
    (front ++ text :: more).idxOf text = front.length ∧
      ((front ++ text :: more).idxOf other < front.length ↔ other ∈ front) ∧
        (front.length < (front ++ text :: more).idxOf other ↔ other ∉ front ∧ other ≠ text) := by
  refine ⟨?_, ?_, ?_⟩
  · rw [List.idxOf_append_of_notMem first, List.idxOf_cons_self, Nat.add_zero]
  · by_cases known : other ∈ front
    · rw [List.idxOf_append_of_mem known]
      exact ⟨fun _ => known, fun _ => List.idxOf_lt_length_of_mem known⟩
    · rw [List.idxOf_append_of_notMem known]
      exact ⟨fun less => absurd less (Nat.not_lt.mpr (Nat.le_add_right _ _)), fun here => absurd here known⟩
  · by_cases known : other ∈ front
    · rw [List.idxOf_append_of_mem known]
      have less := List.idxOf_lt_length_of_mem known
      exact ⟨fun greater => absurd greater (Nat.lt_asymm less), fun behind => absurd known behind.1⟩
    · rw [List.idxOf_append_of_notMem known]
      by_cases same : other = text
      · rw [same, List.idxOf_cons_self]
        simp
      · rw [List.idxOf_cons_ne _ (Ne.symm same)]
        exact ⟨fun _ => ⟨known, same⟩, fun _ => Nat.lt_add_of_pos_right (Nat.succ_pos _)⟩

/-- A value is clear if each text of the table is apart when its turn has come. -/
theorem clear_iff (parameters : List Parameter) : Clear parameters ↔
    ∀ front text, front ++ [text] <+: texts parameters → Apart front text parameters := by
  have nodup : (texts parameters).Nodup := nodup_foldl_note parameters List.nodup_nil
  constructor
  · intro clear front text table parameter rest tail pending different next found gap
    have quoted := clear parameter rest tail pending.1 next found
    obtain ⟨more, whole⟩ := table
    rw [← whole, List.append_assoc, List.singleton_append] at quoted nodup
    have first : text ∉ front := fun known => (List.nodup_append.mp nodup).2.2 text known text List.mem_cons_self rfl
    by_contra unseen
    apply quoted
    rw [gap, (idxOf_table first text).1]
    exact ⟨(idxOf_table first parameter.text).2.2.mpr ⟨pending.2, different⟩,
      Nat.not_lt.mp fun less => unseen ((idxOf_table first next.2).2.1.mp less)⟩
  · intro apart parameter rest tail quoted next found clash
    have inside : next.1 ∈ texts parameters :=
      List.idxOf_lt_length_iff.mp (Nat.lt_of_lt_of_le clash.1 List.idxOf_le_length)
    obtain ⟨front, more, whole, first⟩ := List.eq_append_cons_of_mem inside
    rw [whole, (idxOf_table first next.1).1] at clash
    obtain ⟨fresh, different⟩ := (idxOf_table first parameter.text).2.2.mp clash.1
    have table : front ++ [next.1] <+: texts parameters := ⟨more, by simp [whole]⟩
    have known := apart front next.1 table parameter rest tail ⟨quoted, fresh⟩ different next found rfl
    have less : (front ++ next.1 :: more).idxOf next.2 < front.length := (idxOf_table first next.2).2.1.mpr known
    exact Nat.not_lt.mpr clash.2 less

end Mantids.MIME.HeaderParameters
