import Mantids.Protocols.HeaderParameters

/-! What `parseSubValues` stores for values with parameters. -/

set_option autoImplicit false

namespace Mantids.MIME.HeaderParameters

open Library Memory MIMEHeaderOption

/-! ## What is to be stored -/

/-- What is stored for the value in front: a pair if it has a sign of equality, and nothing if it is empty. -/
def HeaderValue.own (header : HeaderValue) : List (Bytes × Bytes) :=
  let pair :=
    if equalsSign ∈ header.value then
      (trim (header.value.takeWhile (· ≠ equalsSign)), trim (header.value.dropWhile (· ≠ equalsSign)).tail)
    else (header.value, [])
  if pair = ([], []) then [] else [pair]

/-- The pairs that are to be stored, in their order. -/
def HeaderValue.entries (header : HeaderValue) : List (Bytes × Bytes) :=
  header.own ++ header.parameters.map Parameter.entry

/-- The limits of an option leave room for them. -/
structure Room (option : MIMEHeaderOption) (header : HeaderValue) : Prop where
  count : option.subVar.entries.length + header.entries.length ≤ option.maxSubOptionsCount
  size : option.curHeaderOptSize + (header.entries.map fun entry => entry.1.length + entry.2.length).sum ≤
    option.maxHeaderOptSize

/-- Each text is stored as it was, and the value is the one in front. -/
def Verbatim (option : MIMEHeaderOption) (secureReplace : RandomString) (header : HeaderValue) : Prop :=
  (option.parseSubValues secureReplace header.written).value = header.value ∧
    (option.parseSubValues secureReplace header.written).subVar =
      header.entries.foldl (fun subVar entry => subVar.insert entry.1 entry.2) option.subVar

/-- Each quoted text is the one that comes back for its number. -/
def Restorable (parameters : List Parameter) : Prop :=
  ∀ text ∈ texts parameters, restored (texts parameters) ((texts parameters).idxOf text) = text

/-! ## What is written -/

section
variable (header : HeaderValue)

theorem shown_nil (secureReplace : RandomString) (parameter : Parameter) :
    shown secureReplace [] parameter = parameter.written := by
  rw [shown, Parameter.written, if_neg List.not_mem_nil]

theorem plain_value : quotation ∉ header.value := fun member => (header.valueBytes _ member).2.1 rfl

theorem isPrintable_ne {byte : UInt8} (printable : isPrintable byte = true) (solid : byte ≠ 32) :
    HTTP.isSpace byte = false := by
  revert solid printable
  revert byte
  apply Helpers.Encoders.forall_byte
  decide +kernel

theorem trim_value : trim header.value = header.value := by
  apply HTTP.trim_of_solid
  · intro byte first
    apply isPrintable_ne (header.valueBytes byte (List.mem_of_mem_head? first)).1
    rintro rfl
    exact header.trimmed.1 first
  · intro byte last
    apply isPrintable_ne (header.valueBytes byte (List.mem_of_mem_getLast? last)).1
    rintro rfl
    exact header.trimmed.2 last

theorem Parameter.getLast?_written (parameter : Parameter) :
    ∃ byte, parameter.written.getLast? = some byte ∧ HTTP.isSpace byte = false := by
  have behind : ∀ text byte, text.getLast? = some byte → (parameter.lead ++ text).getLast? = some byte := by
    intro text byte last
    rw [List.getLast?_append, last]
    rfl
  unfold written
  cases kind : parameter.quoted with
  | true =>
    refine ⟨quotation, behind _ _ ?_, by decide⟩
    rw [if_pos rfl, quote]
    exact List.getLast?_concat
  | false =>
    rw [if_neg Bool.false_ne_true]
    cases shape : parameter.text.getLast? with
    | none =>
      refine ⟨equalsSign, ?_, by decide⟩
      rw [List.getLast?_eq_none_iff.mp shape, List.append_nil]
      exact List.getLast?_concat
    | some byte =>
      have token := parameter.tokenBytes kind byte (List.mem_of_mem_getLast? shape)
      exact ⟨byte, behind _ _ shape, (isToken_ne token).2.2.1⟩

theorem trim_written : trim header.written = header.written := by
  unfold HeaderValue.written
  rcases List.eq_nil_or_concat header.parameters with none | ⟨before, last, whole⟩
  · rw [none, List.flatMap_nil, List.append_nil]
    exact trim_value header
  · apply HTTP.trim_of_solid
    · intro byte first
      rw [List.head?_append] at first
      cases shape : header.value.head? with
      | some head =>
        rw [shape] at first
        cases first
        apply isPrintable_ne (header.valueBytes byte (List.mem_of_mem_head? shape)).1
        rintro rfl
        exact header.trimmed.1 shape
      | none =>
        -- a parameter begins with a semicolon
        rw [shape] at first
        have mark : byte = semicolon := by
          cases kept : header.parameters with
          | nil =>
            rw [kept] at first
            cases first
          | cons parameter rest =>
            rw [kept] at first
            cases first
            rfl
        rw [mark]
        decide
    · intro byte ends
      obtain ⟨mark, found, solid⟩ := last.getLast?_written
      rw [whole, List.concat_eq_append, List.flatMap_append, List.flatMap_singleton, List.getLast?_append,
        List.getLast?_append, found] at ends
      cases ends
      exact solid

theorem infix_written {parameter : Parameter} (member : parameter ∈ header.parameters) :
    parameter.written <:+: header.written := by
  obtain ⟨before, after, whole⟩ := List.append_of_mem member
  refine ⟨header.value ++ before.flatMap Parameter.written, after.flatMap Parameter.written, ?_⟩
  rw [HeaderValue.written, whole, List.flatMap_append, List.flatMap_cons]
  simp only [List.append_assoc]

theorem Parameter.infix_name (parameter : Parameter) : parameter.name <:+: parameter.written :=
  ⟨[semicolon, 32], [equalsSign] ++ if parameter.quoted then quote parameter.text else parameter.text, by
    simp [written, lead]⟩

theorem Parameter.infix_text (parameter : Parameter) : parameter.text <:+: parameter.written := by
  cases kind : parameter.quoted with
  | true => exact ⟨parameter.lead ++ [quotation], [quotation], by simp [written, kind, quote]⟩
  | false => exact ⟨parameter.lead, [], by simp [written, kind]⟩

theorem infix_trim (text : Bytes) : trim text <:+: text := by
  unfold trim
  have back : (text.dropWhile HTTP.isSpace).reverse.dropWhile HTTP.isSpace <:+ (text.dropWhile HTTP.isSpace).reverse :=
    List.dropWhile_suffix _
  have front := List.reverse_prefix.mpr back
  rw [List.reverse_reverse] at front
  exact front.isInfix.trans (List.dropWhile_suffix _).isInfix

end

/-! ## The parts -/

section
variable {secureReplace : RandomString} {header : HeaderValue} (fresh : Untagged secureReplace header.written)

/-- The text of a parameter where all quoted texts have been taken out. -/
def body (secureReplace : RandomString) (all : List Bytes) (parameter : Parameter) : Bytes :=
  if parameter.quoted then staticMessage secureReplace (all.idxOf parameter.text) else parameter.text

theorem body_ne {all : List Bytes} {parameter : Parameter} :
    ∀ byte ∈ body secureReplace all parameter, byte ≠ semicolon ∧ HTTP.isSpace byte = false := by
  intro byte member
  unfold body at member
  split at member
  case isTrue =>
    have kinds := isalnum_ne (mem_staticMessage member)
    exact ⟨kinds.2.1, kinds.2.2.2⟩
  case isFalse token =>
    have kinds := isToken_ne (parameter.tokenBytes (by simpa using token) byte member)
    exact ⟨kinds.2.1, kinds.2.2.1⟩

def part (secureReplace : RandomString) (all : List Bytes) (parameter : Parameter) : Bytes :=
  32 :: (parameter.name ++ equalsSign :: body secureReplace all parameter)

theorem shown_part {parameters : List Parameter} {parameter : Parameter} (member : parameter ∈ parameters) :
    shown secureReplace (texts parameters) parameter = semicolon :: part secureReplace (texts parameters) parameter := by
  unfold part body
  cases kind : parameter.quoted with
  | true =>
    have known : parameter.text ∈ texts parameters := mem_foldl_note.mpr (.inr ⟨parameter, member, kind, rfl⟩)
    rw [shown_known kind known]
    simp [Parameter.lead]
  | false =>
    rw [shown_token kind, Parameter.written, kind]
    simp [Parameter.lead]

/-- The text in front and the parameters are the parts. -/
theorem split_parameters (header : HeaderValue) (secureReplace : RandomString) :
    HTTP.split (· = semicolon)
        (header.value ++ header.parameters.flatMap (shown secureReplace (texts header.parameters))) =
      header.value :: header.parameters.map (part secureReplace (texts header.parameters)) := by
  have shape : header.parameters.flatMap (shown secureReplace (texts header.parameters)) =
      (header.parameters.map (part secureReplace (texts header.parameters))).flatMap (semicolon :: ·) := by
    rw [List.flatMap_map]
    exact List.flatMap_congr fun parameter member => shown_part member
  rw [shape]
  apply HTTP.Headers.split_parts (by decide)
  · intro piece member
    obtain ⟨parameter, -, rfl⟩ := List.mem_map.mp member
    refine ⟨List.cons_ne_nil _ _, ?_⟩
    intro byte inside
    simp only [part, List.mem_cons, List.mem_append] at inside
    rcases inside with rfl | name | rfl | text
    · decide
    · exact decide_eq_false (isToken_ne (parameter.nameBytes byte name).1).2.1
    · decide
    · exact decide_eq_false (body_ne byte text).1
  · intro byte member
    exact decide_eq_false (header.valueBytes byte member).2.2

/-- A part is stored under its name. -/
theorem addPart_part (restore : Bytes → Bytes) (option : MIMEHeaderOption) (all : List Bytes) (parameter : Parameter) :
    option.addPart restore (part secureReplace all parameter) =
      option.addSubVar (restore parameter.name) (restore (body secureReplace all parameter)) := by
  have before : ∀ byte ∈ 32 :: parameter.name, decide (byte ≠ equalsSign) = true := by
    intro byte member
    rcases List.mem_cons.mp member with rfl | name
    · decide
    · exact decide_eq_true (parameter.nameBytes byte name).2
  have shape : part secureReplace all parameter =
      (32 :: parameter.name) ++ equalsSign :: body secureReplace all parameter := rfl
  have name : trim (32 :: parameter.name) = parameter.name := by
    rw [show trim (32 :: parameter.name) = trim parameter.name from rfl]
    exact HTTP.trim_of_forall fun byte member => (isToken_ne (parameter.nameBytes byte member).1).2.2.1
  rw [addPart, shape, if_pos (List.mem_append_right _ List.mem_cons_self), List.takeWhile_append_of_pos before,
    List.dropWhile_append_of_pos before, List.takeWhile_cons_of_neg (by simp), List.dropWhile_cons_of_neg (by simp),
    List.append_nil, List.tail_cons, name, HTTP.trim_of_forall fun byte member => (body_ne byte member).2]

/-- The value in front is stored as one part. -/
theorem addPart_value {restore : Bytes → Bytes} (kept : ∀ text, text <:+: header.value → restore text = text)
    (option : MIMEHeaderOption) :
    option.addPart restore header.value = header.own.foldl (fun option entry => option.addSubVar entry.1 entry.2) option := by
  have stored : ∀ pair : Bytes × Bytes, option.addSubVar pair.1 pair.2 =
      (if pair = ([], []) then [] else [pair]).foldl (fun option entry => option.addSubVar entry.1 entry.2) option := by
    intro pair
    split
    case isTrue empty =>
      rw [empty, addSubVar, if_pos ⟨rfl, rfl⟩]
      rfl
    case isFalse => rfl
  unfold addPart HeaderValue.own
  split
  case isTrue sign =>
    have name := kept _ ((infix_trim _).trans (List.takeWhile_prefix (p := fun byte => decide (byte ≠ equalsSign))).isInfix)
    have text := kept _ ((infix_trim _).trans
      ((List.tail_suffix _).trans (List.dropWhile_suffix (p := fun byte => decide (byte ≠ equalsSign)))).isInfix)
    rw [name, text]
    exact stored (_, _)
  case isFalse =>
    rw [trim_value, kept _ List.infix_rfl]
    exact stored (header.value, [])

end

/-! ## What is stored -/

section
variable {option : MIMEHeaderOption}

theorem length_addSubVar_le (option : MIMEHeaderOption) (entry : Bytes × Bytes) :
    (option.addSubVar entry.1 entry.2).subVar.entries.length ≤ option.subVar.entries.length + 1 := by
  rcases addSubVar_cases option entry.1 entry.2 with same | more
  · rw [same]
    exact Nat.le_succ _
  · rw [more]
    exact (Multimap.length_insert _ _ _).le

theorem length_foldl_addSubVar_le (entries : List (Bytes × Bytes)) (option : MIMEHeaderOption) :
    (entries.foldl (fun option entry => option.addSubVar entry.1 entry.2) option).subVar.entries.length ≤
      option.subVar.entries.length + entries.length := by
  induction entries generalizing option with
  | nil => exact Nat.le_refl _
  | cons entry rest ih =>
    have first := length_addSubVar_le option entry
    have later := ih (option.addSubVar entry.1 entry.2)
    rw [List.foldl_cons, List.length_cons]
    omega

theorem length_foldl_addPart_le (restore : Bytes → Bytes) (values : List Bytes) (option : MIMEHeaderOption) :
    (values.foldl (addPart restore) option).subVar.entries.length ≤ option.subVar.entries.length + values.length := by
  induction values generalizing option with
  | nil => exact Nat.le_refl _
  | cons value rest ih =>
    have first : (option.addPart restore value).subVar.entries.length ≤ option.subVar.entries.length + 1 := by
      unfold addPart
      split
      · exact length_addSubVar_le option (_, _)
      · exact length_addSubVar_le option (_, _)
    have later := ih (option.addPart restore value)
    rw [List.foldl_cons, List.length_cons]
    omega

theorem length_split_le (text : Bytes) :
    (HTTP.split (fun byte => decide (byte = semicolon)) text).length ≤ text.count semicolon + 1 := by
  induction text with
  | nil => exact Nat.le_refl _
  | cons byte rest ih =>
    rw [HTTP.split]
    split
    case isTrue mark =>
      rw [of_decide_eq_true mark, List.count_cons_self]
      split
      · exact Nat.le_succ_of_le ih
      · exact Nat.succ_le_succ ih
    case isFalse other =>
      have counted : (byte :: rest).count semicolon = rest.count semicolon :=
        List.count_cons_of_ne (by simpa using other)
      rw [counted]
      split
      · rename_i first more parts
        rw [parts] at ih
        exact ih
      · exact Nat.succ_le_succ (Nat.zero_le _)

theorem insert_length (entries : List (Bytes × Bytes)) (subVar : Multimap Bytes Bytes) :
    (entries.foldl (fun subVar entry => subVar.insert entry.1 entry.2) subVar).entries.length =
      subVar.entries.length + entries.length := by
  induction entries generalizing subVar with
  | nil => rfl
  | cons entry rest ih =>
    rw [List.foldl_cons, ih, Multimap.length_insert, List.length_cons]
    omega

/-- Where as many are stored as there are, all of them are. -/
theorem stored_of_length {entries : List (Bytes × Bytes)} {option : MIMEHeaderOption}
    (all : (entries.foldl (fun option entry => option.addSubVar entry.1 entry.2) option).subVar.entries.length =
      option.subVar.entries.length + entries.length) :
    (entries.foldl (fun option entry => option.addSubVar entry.1 entry.2) option).subVar =
      entries.foldl (fun subVar entry => subVar.insert entry.1 entry.2) option.subVar := by
  induction entries generalizing option with
  | nil => rfl
  | cons entry rest ih =>
    have most := length_foldl_addSubVar_le rest (option.addSubVar entry.1 entry.2)
    rw [List.foldl_cons, List.length_cons] at all
    rcases addSubVar_cases option entry.1 entry.2 with same | more
    · rw [same] at all most
      omega
    · rw [List.foldl_cons, List.foldl_cons, ih, more]
      rw [all, more, Multimap.length_insert]
      omega

/-- Where there is room for printable entries, all of them are stored. -/
theorem stored_of_room {entries : List (Bytes × Bytes)} {option : MIMEHeaderOption}
    (some : ∀ entry ∈ entries, entry ≠ ([], []))
    (printable : ∀ entry ∈ entries, isPermited7bitCharset entry.1 = true ∧ isPermited7bitCharset entry.2 = true)
    (count : option.subVar.entries.length + entries.length ≤ option.maxSubOptionsCount)
    (size : option.curHeaderOptSize + (entries.map fun entry => entry.1.length + entry.2.length).sum ≤
      option.maxHeaderOptSize) :
    (entries.foldl (fun option entry => option.addSubVar entry.1 entry.2) option).subVar =
      entries.foldl (fun subVar entry => subVar.insert entry.1 entry.2) option.subVar := by
  induction entries generalizing option with
  | nil => rfl
  | cons entry rest ih =>
    rw [List.length_cons] at count
    rw [List.map_cons, List.sum_cons] at size
    obtain ⟨name, value⟩ := printable entry List.mem_cons_self
    have filled : ¬(entry.1 = [] ∧ entry.2 = []) :=
      fun empty => some entry List.mem_cons_self (Prod.ext empty.1 empty.2)
    have stored := addSubVar_room option entry.1 entry.2 filled (by omega) (by omega) name value
    rcases addSubVar_cases option entry.1 entry.2 with same | more
    · rw [same] at stored
      have longer := congrArg (fun subVar => subVar.entries.length) stored
      simp only [Multimap.length_insert] at longer
      omega
    · rw [List.foldl_cons, List.foldl_cons, ← stored]
      apply ih
      · exact fun other member => some other (.tail _ member)
      · exact fun other member => printable other (.tail _ member)
      · rw [more, Multimap.length_insert]
        dsimp only
        omega
      · rw [more]
        dsimp only
        omega

end

/-! ## What the loop leaves is stored -/

/-- What is stored for a parameter. -/
def outcome (all : List Bytes) (parameter : Parameter) : Bytes × Bytes :=
  (parameter.name, if parameter.quoted then restored all (all.idxOf parameter.text) else parameter.text)

section
variable {option : MIMEHeaderOption} {secureReplace : RandomString} {header : HeaderValue}
  (fresh : Untagged secureReplace header.written)

theorem written_eq : header.written = header.value ++ header.parameters.flatMap (shown secureReplace []) := by
  have same : shown secureReplace [] = Parameter.written := by
    funext parameter
    exact shown_nil secureReplace parameter
  rw [HeaderValue.written, same]

theorem turns_enough :
    (header.parameters.flatMap (shown secureReplace [])).count quotation ≤ 2 * header.written.length := by
  have whole := List.count_le_length (a := quotation) (l := header.parameters.flatMap (shown secureReplace []))
  have shorter := congrArg List.length (@written_eq secureReplace header)
  rw [List.length_append] at shorter
  omega

include fresh

theorem untagged_texts {parameter : Parameter} (member : parameter ∈ header.parameters) :
    Untagged secureReplace parameter.text :=
  untagged_of_inside (parameter.infix_text.trans (infix_written header member)) fresh

theorem replaceBack_body {parameter : Parameter} (member : parameter ∈ header.parameters) :
    (replaceBack secureReplace (texts header.parameters) parameter.name,
      replaceBack secureReplace (texts header.parameters) (body secureReplace (texts header.parameters) parameter)) =
        outcome (texts header.parameters) parameter := by
  have inside := infix_written header member
  have name := replaceBack_untagged (texts header.parameters)
    (untagged_of_inside (parameter.infix_name.trans inside) fresh)
  unfold body outcome
  rw [name]
  split
  case isTrue quoted =>
    have known : parameter.text ∈ texts header.parameters := mem_foldl_note.mpr (.inr ⟨parameter, member, quoted, rfl⟩)
    have table : ∀ text ∈ texts header.parameters, Untagged secureReplace text := by
      intro text listed
      rcases mem_foldl_note.mp listed with none | ⟨other, there, -, rfl⟩
      · cases none
      · exact untagged_texts fresh there
    rw [replaceBack_staticMessage table (List.idxOf_lt_length_of_mem known)]
  case isFalse =>
    rw [replaceBack_untagged _ (untagged_texts fresh member)]

/-- Each parameter is stored with what comes back for it. -/
theorem parse_clear (clear : Clear header.parameters) :
    (option.parseSubValues secureReplace header.written).value = header.value ∧
      (option.parseSubValues secureReplace header.written).subVar =
        ((header.own ++ header.parameters.map (outcome (texts header.parameters))).foldl
          (fun (option : MIMEHeaderOption) entry => option.addSubVar entry.1 entry.2)
          { option with origValue := header.written }).subVar := by
  have kept : ∀ text, text <:+: header.value → replaceBack secureReplace (texts header.parameters) text = text :=
    fun text inside => replaceBack_untagged _
      (untagged_of_inside (inside.trans (List.prefix_append _ _).isInfix) fresh)
  have taken := takeOut_apart (plain_value header) (fun parameter member => untagged_texts fresh member) turns_enough
    ((clear_iff header.parameters).mp clear)
  rw [← written_eq] at taken
  have pieces := split_parameters header secureReplace
  unfold parseSubValues
  rw [trim_written, taken]
  simp only
  rw [← texts, pieces]
  constructor
  case left =>
    rw [List.headD_cons, trim_value, kept _ List.infix_rfl, trim_value]
  case right =>
    rw [List.foldl_cons, addPart_value kept, List.foldl_append, List.foldl_map, List.foldl_map]
    congr 1
    apply List.foldl_ext
    intro option parameter member
    have stored := replaceBack_body fresh member
    rw [addPart_part, ← stored]

/-- Where a semicolon is lost, so is a parameter. -/
theorem parse_clash (clash : ¬Clear header.parameters) :
    (option.parseSubValues secureReplace header.written).subVar.entries.length <
      option.subVar.entries.length + header.entries.length := by
  rw [clear_iff] at clash
  simp only [not_forall] at clash
  obtain ⟨front, text, table, clash⟩ := clash
  obtain ⟨left, taken, few⟩ := takeOut_clash (plain_value header)
    (fun parameter member => untagged_texts fresh member) turns_enough rfl (List.nil_prefix) table clash
  rw [← written_eq] at taken
  unfold parseSubValues
  rw [trim_written]
  generalize takeOut secureReplace header.written.length [] header.written = result at taken
  obtain ⟨vStaticTexts, sVarValues⟩ := result
  have kept : ∀ text, text <:+: header.value → replaceBack secureReplace vStaticTexts text = text :=
    fun text inside => replaceBack_untagged _
      (untagged_of_inside (inside.trans (List.prefix_append _ _).isInfix) fresh)
  dsimp only at taken ⊢
  have pieces : HTTP.split (fun byte => decide (byte = semicolon)) (header.value ++ semicolon :: left) =
      header.value :: HTTP.split (fun byte => decide (byte = semicolon))
        (left.dropWhile fun byte => decide (byte = semicolon)) :=
    HTTP.Headers.split_append (fun byte member => decide_eq_false (header.valueBytes byte member).2.2) (by decide) left
  rw [taken, pieces, List.foldl_cons, addPart_value kept]
  have own := length_foldl_addSubVar_le header.own { option with origValue := header.written }
  have parts := length_foldl_addPart_le (replaceBack secureReplace vStaticTexts)
    (HTTP.split (fun byte => decide (byte = semicolon)) (left.dropWhile fun byte => decide (byte = semicolon)))
    (header.own.foldl (fun option entry => option.addSubVar entry.1 entry.2) { option with origValue := header.written })
  have counted := length_split_le (left.dropWhile fun byte => decide (byte = semicolon))
  have fewer := (List.dropWhile_sublist (l := left) fun byte => decide (byte = semicolon)).count_le semicolon
  rw [HeaderValue.entries, List.length_append, List.length_map]
  dsimp only at own
  omega

end

theorem entries_printable (header : HeaderValue) : ∀ entry ∈ header.entries, entry ≠ ([], []) ∧
    isPermited7bitCharset entry.1 = true ∧ isPermited7bitCharset entry.2 = true := by
  intro entry member
  have permitted : ∀ text : Bytes, (∀ byte ∈ text, isPrintable byte = true) → isPermited7bitCharset text = true :=
    fun text printable => List.all_eq_true.mpr printable
  have one : ∀ pair : Bytes × Bytes, isPermited7bitCharset pair.1 = true ∧ isPermited7bitCharset pair.2 = true →
      ∀ entry ∈ if pair = ([], []) then [] else [pair],
        entry ≠ ([], []) ∧ isPermited7bitCharset entry.1 = true ∧ isPermited7bitCharset entry.2 = true := by
    intro pair printable entry inside
    split at inside
    case isTrue => cases inside
    case isFalse filled =>
      rw [List.mem_singleton.mp inside]
      exact ⟨filled, printable⟩
  rcases List.mem_append.mp member with own | behind
  · have sub : ∀ text : Bytes, text ⊆ header.value → isPermited7bitCharset text = true :=
      fun text inside => permitted text fun byte there => (header.valueBytes byte (inside there)).1
    have cut : ∀ text : Bytes, text ⊆ header.value → isPermited7bitCharset (trim text) = true :=
      fun text inside => sub _ fun byte there => inside (mem_of_mem_trim there)
    refine one _ ?_ entry own
    split
    · exact ⟨cut _ (List.takeWhile_sublist _).subset,
        cut _ ((List.tail_sublist _).trans (List.dropWhile_sublist _)).subset⟩
    · exact ⟨sub _ (List.Subset.refl _), rfl⟩
  · obtain ⟨parameter, -, rfl⟩ := List.mem_map.mp behind
    refine ⟨fun empty => parameter.named (congrArg Prod.fst empty), permitted _ ?_, permitted _ ?_⟩
    · exact fun byte there => (isToken_ne (parameter.nameBytes byte there).1).2.2.2
    · intro byte there
      cases kind : parameter.quoted with
      | false => exact (isToken_ne (parameter.tokenBytes kind byte there)).2.2.2
      | true => exact (parameter.quotedBytes kind byte there).1

theorem outcome_eq_iff (parameters : List Parameter) :
    parameters.map (outcome (texts parameters)) = parameters.map Parameter.entry ↔ Restorable parameters := by
  rw [List.map_inj_left]
  constructor
  · intro same text listed
    rcases mem_foldl_note.mp listed with none | ⟨parameter, member, quoted, rfl⟩
    · cases none
    · have value := congrArg Prod.snd (same parameter member)
      simp only [outcome, if_pos quoted] at value
      exact value
  · intro restorable parameter member
    unfold outcome Parameter.entry
    split
    case isTrue quoted => rw [restorable _ (mem_foldl_note.mpr (.inr ⟨parameter, member, quoted, rfl⟩))]
    case isFalse => rfl

/-- The parameters are stored as they are exactly where no text between two quoted ones is taken for a quoted one, and
each quoted text is the one that comes back for its number. -/
theorem parameters_iff (option : MIMEHeaderOption) (secureReplace : RandomString) (header : HeaderValue)
    (room : Room option header) (fresh : Untagged secureReplace header.written) :
    Verbatim option secureReplace header ↔ Clear header.parameters ∧ Restorable header.parameters := by
  rw [← outcome_eq_iff]
  constructor
  · rintro ⟨-, stored⟩
    have lengths := congrArg (fun subVar => subVar.entries.length) stored
    simp only [insert_length] at lengths
    have clear : Clear header.parameters := by
      by_contra clash
      have fewer : (option.parseSubValues secureReplace header.written).subVar.entries.length <
        option.subVar.entries.length + header.entries.length := parse_clash fresh clash
      omega
    rw [(parse_clear fresh clear).2] at stored lengths
    have all := stored_of_length (lengths.trans (by simp [HeaderValue.entries]))
    rw [all] at stored
    have keys : (header.own ++ header.parameters.map (outcome (texts header.parameters))).map Prod.fst =
        header.entries.map Prod.fst := by
      simp [HeaderValue.entries, outcome, Parameter.entry]
    have same := (Multimap.foldl_insert_inj keys option.subVar).mp stored
    exact ⟨clear, List.append_cancel_left same⟩
  · rintro ⟨clear, same⟩
    obtain ⟨value, stored⟩ : (option.parseSubValues secureReplace header.written).value = header.value ∧ _ :=
      parse_clear fresh clear
    refine ⟨value, ?_⟩
    rw [stored, same]
    apply stored_of_room
    · exact fun entry member => (entries_printable header entry member).1
    · exact fun entry member => (entries_printable header entry member).2
    · exact room.count
    · exact room.size

/-- A file of a form. -/
def formField : HeaderValue where
  value := ascii "form-data"
  parameters :=
    [⟨ascii "name", ascii "a; b=c", true, by decide, by decide +kernel, by decide, by decide +kernel⟩,
      ⟨ascii "size", ascii "12", false, by decide, by decide +kernel, by decide +kernel, by decide⟩]
  valueBytes := by decide +kernel
  trimmed := by decide +kernel

theorem parameters_iff_formField :
    Verbatim (new 0) .letters formField ↔ Clear formField.parameters ∧ Restorable formField.parameters :=
  parameters_iff (new 0) .letters formField ⟨by decide +kernel, by decide +kernel⟩
    (show ¬RandomString.letters.text <:+: formField.written by decide +kernel)

/-- The text between the two last quoted ones is the first of them. -/
def threeTexts : HeaderValue where
  value := ascii "v"
  parameters :=
    [⟨ascii "a", ascii "; c=", true, by decide, by decide +kernel, by decide, by decide +kernel⟩,
      ⟨ascii "b", ascii "y", true, by decide, by decide +kernel, by decide, by decide +kernel⟩,
      ⟨ascii "c", ascii "z", true, by decide, by decide +kernel, by decide, by decide +kernel⟩]
  valueBytes := by decide +kernel
  trimmed := by decide +kernel

theorem threeTexts_lost : Room (new 0) threeTexts ∧ Untagged .letters threeTexts.written ∧
    ¬Verbatim (new 0) .letters threeTexts :=
  ⟨⟨by decide +kernel, by decide +kernel⟩,
    show ¬RandomString.letters.text <:+: threeTexts.written by decide +kernel,
    by unfold Verbatim; decide +kernel⟩

end Mantids.MIME.HeaderParameters
