import Mantids.RPC.InsertedLiterals

/-! What the values that `replaceByJVar` inserts do to the page, and when a script has the values themselves. -/

set_option autoImplicit false

namespace Mantids.RPC.InsertedValues

open Library Library.Script

section
variable (reals : Reals)

/-! ## What the tokenizer of the page finds -/

section
variable {tail : List (Char → Bool)}

/-- The characters that stand for themselves. -/
def verbatim (c : Char) : Bool := angles (quotedChar c) = [c]

theorem verbatim_of_plain {c : Char} (ascii : 0x20 ≤ c.toNat ∧ c.toNat < 0x80)
    (other : c ≠ '"' ∧ c ≠ '\\' ∧ c ≠ '<' ∧ c ≠ '>') : verbatim c = true := by
  have control (sign : Char) (low : sign.toNat < 0x20) : c ≠ sign := by
    intro same
    rw [same] at ascii
    omega
  have written : quotedChar c = [c] := by
    unfold quotedChar
    rw [if_neg other.1, if_neg other.2.1, if_neg (by omega), if_neg (by omega), if_neg (control '\n' (by decide)),
      if_neg (control '\r' (by decide)), if_neg (control '\t' (by decide)), if_neg (by omega)]
  rw [verbatim, written, decide_eq_true_eq]
  exact angles_cons other.2.2 []

theorem quotedChar_backslash {c : Char} (other : verbatim c = false) : ∃ text, angles (quotedChar c) = '\\' :: text := by
  have shape := coded c
  rw [verbatim, decide_eq_false_iff_not] at other
  revert other
  generalize angles (quotedChar c) = written at shape
  intro other
  cases shape with
  | escape sign means single angled line => exact ⟨_, rfl⟩
  | hex another =>
    unfold units
    split
    · exact ⟨_, rfl⟩
    · exact ⟨_, rfl⟩
  | plain ascii signs => exact absurd rfl other

/-- No kind takes the two signs that the writer adds. -/
def Apart (tail : List (Char → Bool)) : Prop := ∀ kind ∈ tail, kind '\\' = false ∧ kind '"' = false

/-- The kinds as they apply to the value: what is escaped is not found. -/
def unescaped (tail : List (Char → Bool)) : List (Char → Bool) := tail.map fun kind c => kind c && verbatim c

theorem starts_quoted (apart : Apart tail) (text after : Text) :
    starts tail (angles (text.flatMap quotedChar) ++ '"' :: after) = starts (unescaped tail) text := by
  induction tail generalizing text with
  | nil => rfl
  | cons kind kinds ih =>
    obtain ⟨first, others⟩ := List.forall_mem_cons.mp apart
    cases text with
    | nil =>
      rw [List.flatMap_nil]
      show (kind '"' && _) = false
      rw [first.2]
      rfl
    | cons c rest =>
      rw [List.flatMap_cons, angles_append, List.append_assoc]
      show _ = (kind c && verbatim c && starts (unescaped kinds) rest)
      by_cases itself : verbatim c = true
      · rw [of_decide_eq_true itself, itself, Bool.and_true, ← ih others rest]
        rfl
      · rw [Bool.not_eq_true] at itself
        obtain ⟨more, written⟩ := quotedChar_backslash itself
        rw [written, itself, Bool.and_false, Bool.false_and]
        show (kind '\\' && _) = false
        rw [first.1]
        rfl

theorem occurs_quoted (apart : Apart tail) (text after : Text) :
    occurs (opens :: tail) (angles (text.flatMap quotedChar)) ('"' :: after) =
      occurs (opens :: unescaped tail) text [] := by
  induction text with
  | nil => rfl
  | cons c rest ih =>
    rw [List.flatMap_cons, angles_append, occurs_append, ih]
    by_cases less : c = '<'
    · have here := starts_quoted apart rest after
      subst less
      show (starts (opens :: tail) ('\\' :: '<' :: _) || (starts (opens :: tail) ('<' :: _) || false) || _) = _
      rw [Bool.or_false]
      show (false || (true && starts tail (angles (rest.flatMap quotedChar) ++ '"' :: after)) || _) =
        ((true && starts (unescaped tail) (rest ++ [])) || _)
      rw [List.append_nil, here]
      rfl
    · have absent : '<' ∉ angles (quotedChar c) := by
        have shape := coded c
        generalize angles (quotedChar c) = written at shape
        cases shape with
        | escape sign means single angled line =>
          intro member
          rcases List.mem_cons.mp member with first | second
          · revert first
            decide
          · exact less (angled (List.mem_singleton.mp second).symm)
        | hex another =>
          intro member
          obtain ⟨unit, -, digit⟩ := List.mem_flatMap.mp member
          exact (appendHex_plain unit '<' digit).1 rfl
        | plain ascii signs => exact fun member => less (List.mem_singleton.mp member).symm
      rw [occurs_absent absent, occurs_other less, Bool.false_or]

end

mutual

/-- The strings of a value, and the names of its members. -/
def Json.texts {R : Type} : Json R → List Text
  | .string text => [text]
  | .array items => items.texts
  | .object members => members.texts
  | _ => []

def Items.texts {R : Type} : Items R → List Text
  | .nil => []
  | .cons item rest => item.texts ++ rest.texts

def Members.texts {R : Type} : Members R → List Text
  | .nil => []
  | .cons name value rest => name :: value.texts ++ rest.texts

end

section
variable {reals} {tail : List (Char → Bool)}

theorem occurs_valueToQuotedString (apart : Apart tail) (text after : Text) :
    occurs (opens :: tail) (angles (valueToQuotedString text)) after = occurs (opens :: unescaped tail) text [] := by
  rw [angles_valueToQuotedString, List.cons_append, occurs_other (by decide), occurs_append]
  have close : occurs (opens :: tail) ['"'] after = false := occurs_absent (by decide) after
  rw [close, Bool.or_false]
  exact occurs_quoted apart text after

theorem occurs_numeric {text : Text} (numeric : ∀ c ∈ text, isNumeric c = true) (after : Text) :
    occurs (opens :: tail) (angles text) after = false := by
  have plain := numeric_plain numeric
  rw [angles_of_plain plain]
  exact occurs_absent (fun member => (plain '<' member).1 rfl) after

mutual

theorem occurs_writeValue (apart : Apart tail) (value : Json reals.R) (after : Text) :
    occurs (opens :: tail) (angles (value.writeValue reals)) after =
      value.texts.any fun text => occurs (opens :: unescaped tail) text [] := by
  cases value with
  | null =>
    have word : '<' ∉ "null".toList := by decide
    exact occurs_absent word after
  | bool value =>
    cases value with
    | true =>
      have word : '<' ∉ "true".toList := by decide
      exact occurs_absent word after
    | false =>
      have word : '<' ∉ "false".toList := by decide
      exact occurs_absent word after
  | integer number => exact occurs_numeric (numeric_valueToString number) after
  | real number => exact occurs_numeric (reals.numeric number) after
  | string text =>
    rw [Json.writeValue, occurs_valueToQuotedString apart]
    exact (Bool.or_false _).symm
  | array items =>
    rw [Json.writeValue, List.cons_append, angles_cons (by decide), angles_append, occurs_other (by decide),
      occurs_append, occurs_writeItems apart items]
    have close : occurs (opens :: tail) [']'] after = false := occurs_absent (by decide) after
    exact (congrArg _ close).trans (Bool.or_false _)
  | object members =>
    rw [Json.writeValue, List.cons_append, angles_cons (by decide), angles_append, occurs_other (by decide),
      occurs_append, occurs_writeMembers apart members]
    have close : occurs (opens :: tail) ['}'] after = false := occurs_absent (by decide) after
    exact (congrArg _ close).trans (Bool.or_false _)

theorem occurs_writeItems (apart : Apart tail) (items : Items reals.R) (after : Text) :
    occurs (opens :: tail) (angles (items.writeItems reals)) after =
      items.texts.any fun text => occurs (opens :: unescaped tail) text [] := by
  cases items with
  | nil => rfl
  | cons item others =>
    rw [Items.texts, List.any_append]
    by_cases last : others = .nil
    · rw [last, Items.writeItems, occurs_writeValue apart item]
      exact (Bool.or_false _).symm
    · rw [writeItems_cons item last, angles_append, angles_cons (by decide), occurs_append, occurs_writeValue apart item,
        occurs_other (by decide), occurs_writeItems apart others]

theorem occurs_writeMembers (apart : Apart tail) (members : Members reals.R) (after : Text) :
    occurs (opens :: tail) (angles (members.writeMembers reals)) after =
      members.texts.any fun text => occurs (opens :: unescaped tail) text [] := by
  cases members with
  | nil => rfl
  | cons name value others =>
    rw [Members.texts, List.any_append, List.any_cons]
    by_cases last : others = .nil
    · rw [last, Members.writeMembers, angles_append, angles_cons (by decide), occurs_append,
        occurs_valueToQuotedString apart, occurs_other (by decide), occurs_writeValue apart value]
      exact (Bool.or_false _).symm
    · rw [writeMembers_cons name value last, angles_append, angles_append, angles_cons (by decide),
        angles_cons (by decide), occurs_append, occurs_append, occurs_valueToQuotedString apart, occurs_other (by decide),
        occurs_writeValue apart value, occurs_other (by decide), occurs_writeMembers apart others]

end

end

/-! ## What is asked of the text -/

mutual

/-- The value itself, as a script has it. -/
def Json.denoted {R : Type} : Json R → Value R
  | .null => .null
  | .bool value => .bool value
  | .integer number => .integer number
  | .real number => .real number
  | .string text => .string (unitsOf text)
  | .array items => .array items.denoted
  | .object members => .object none members.denoted

def Items.denoted {R : Type} : Items R → List (Value R)
  | .nil => []
  | .cons item rest => item.denoted :: rest.denoted

def Members.denoted {R : Type} : Members R → List (List Nat × Value R)
  | .nil => []
  | .cons name value rest => (unitsOf name, value.denoted) :: rest.denoted

end

/-- Whatever follows in the page, no comment begins in the literal, and no tag that ends the script. -/
def Inert (value : Json reals.R) (scriptVarName : Text) : Prop :=
  ∀ page, occurs comment (literal reals value) (closing scriptVarName ++ page) = false ∧
    occurs (endTag nameEnds) (literal reals value) (closing scriptVarName ++ page) = false

/-- A script that reads the literal has the value. -/
def Faithful (value : Json reals.R) : Prop := readLiteral reals.read (literal reals value) = some value.denoted

/-- No string and no name holds the beginning of a comment, nor the end tag of a script with a blank or a slash. -/
def Safe {R : Type} (value : Json R) : Prop :=
  ∀ text ∈ value.texts, occurs comment text [] = false ∧ occurs (endTag [' ', '/']) text [] = false

mutual

/-- Its whole numbers are doubles: nothing but zeros behind the first 53 bits. No member has the name that sets the
prototype. -/
def Json.Plain {R : Type} : Json R → Prop
  | .integer number => 2 ^ (number.val.natAbs.log2 - 52) ∣ number.val.natAbs
  | .array items => items.Plain
  | .object members => members.Plain
  | _ => True

def Items.Plain {R : Type} : Items R → Prop
  | .nil => True
  | .cons item rest => item.Plain ∧ rest.Plain

def Members.Plain {R : Type} : Members R → Prop
  | .nil => True
  | .cons name value rest => name ≠ "__proto__".toList ∧ value.Plain ∧ rest.Plain

end

theorem newline_valueToQuotedString (text : Text) : '\n' ∉ valueToQuotedString text := by
  unfold valueToQuotedString
  rw [List.mem_append, List.mem_cons]
  intro member
  rcases member with (quote | inside) | quote
  · revert quote
    decide
  · obtain ⟨c, -, written⟩ := List.mem_flatMap.mp inside
    exact newline_quotedChar c written
  · revert quote
    decide

theorem newline_numeric {text : Text} (numeric : ∀ c ∈ text, isNumeric c = true) : '\n' ∉ text := by
  intro member
  have kind := numeric '\n' member
  revert kind
  decide

mutual

theorem newline_writeValue (value : Json reals.R) : '\n' ∉ value.writeValue reals := by
  cases value with
  | null =>
    rw [Json.writeValue]
    decide
  | bool value =>
    rw [Json.writeValue]
    cases value <;> decide
  | integer number => exact newline_numeric (numeric_valueToString number)
  | real number => exact newline_numeric (reals.numeric number)
  | string text => exact newline_valueToQuotedString text
  | array items => simp [Json.writeValue, newline_writeItems items]
  | object members => simp [Json.writeValue, newline_writeMembers members]

theorem newline_writeItems (items : Items reals.R) : '\n' ∉ items.writeItems reals := by
  cases items with
  | nil => exact List.not_mem_nil
  | cons item others =>
    by_cases last : others = .nil
    · rw [last, Items.writeItems]
      exact newline_writeValue item
    · simp [writeItems_cons item last, newline_writeValue item, newline_writeItems others]

theorem newline_writeMembers (members : Members reals.R) : '\n' ∉ members.writeMembers reals := by
  cases members with
  | nil => exact List.not_mem_nil
  | cons name value others =>
    by_cases last : others = .nil
    · rw [last, Members.writeMembers]
      simp [newline_valueToQuotedString name, newline_writeValue value]
    · simp [writeMembers_cons name value last, newline_valueToQuotedString name, newline_writeValue value,
        newline_writeMembers others]

end

theorem replaceByJVar_eq (value : Json reals.R) (scriptVarName : Text) :
    replaceByJVar reals value scriptVarName = opening scriptVarName ++ literal reals value ++ closing scriptVarName := by
  have line : (value.write reals).filter (· ≠ '\n') = value.writeValue reals := by
    have kept : (value.writeValue reals).filter (· ≠ '\n') = value.writeValue reals := by
      rw [List.filter_eq_self]
      intro c member
      rw [decide_eq_true_eq]
      intro same
      exact newline_writeValue reals value (same ▸ member)
    rw [Json.write, List.filter_append, kept]
    exact List.append_nil _
  unfold replaceByJVar opening closing literal
  dsimp only
  rw [line, replaced_angles]
  by_cases none : scriptVarName = []
  · simp [none]
  · simp [none]

section
variable {reals}

theorem toLower_cases (c : Char) : c.toLower = c ∨ 65 ≤ c.toNat ∧ c.toNat ≤ 90 := by
  unfold Char.toLower
  split
  case isTrue letter => exact .inr ⟨letter.1, letter.2⟩
  case isFalse => exact .inl rfl

theorem verbatim_of_toLower {c : Char} (plain : verbatim c.toLower = true) : verbatim c = true := by
  rcases toLower_cases c with same | letter
  · rwa [same] at plain
  · have other (sign : Char) (outside : sign.toNat < 65 ∨ 90 < sign.toNat) : c ≠ sign := by
      intro same
      rw [same] at letter
      omega
    exact verbatim_of_plain (by omega)
      ⟨other '"' (by decide), other '\\' (by decide), other '<' (by decide), other '>' (by decide)⟩

theorem unescaped_map {signs : Text} {kind : Char → Char → Bool} (verbatims : ∀ sign ∈ signs, ∀ c, kind sign c = true →
    verbatim c = true) : unescaped (signs.map kind) = signs.map kind := by
  rw [unescaped, List.map_map]
  apply List.map_congr_left
  intro sign member
  funext c
  show (kind sign c && verbatim c) = kind sign c
  by_cases taken : kind sign c = true
  · rw [verbatims sign member c taken, Bool.and_true]
  · rw [Bool.not_eq_true] at taken
    rw [taken, Bool.false_and]

/-- A comment is found where the value has one. -/
theorem occurs_comment (value : Json reals.R) (after : Text) : occurs comment (literal reals value) after =
    value.texts.any fun text => occurs comment text [] := by
  have apart : Apart (['!', '-', '-'].map fun sign c => decide (c = sign)) := by
    unfold Apart
    rw [List.forall_mem_map]
    simp only [List.forall_mem_cons, List.not_mem_nil, false_imp_iff, implies_true, and_true]
    decide
  have same : unescaped (['!', '-', '-'].map fun sign c => decide (c = sign)) =
      ['!', '-', '-'].map fun sign c => decide (c = sign) := by
    have signs := List.all_eq_true.mp (by decide +kernel : ['!', '-', '-'].all verbatim = true)
    apply unescaped_map
    intro sign member c taken
    rw [of_decide_eq_true taken]
    exact signs sign member
  have written := occurs_writeValue apart value after
  rw [same] at written
  exact written

/-- Of the signs that end a name, the writer and the replacement leave two. -/
theorem occurs_endTag (value : Json reals.R) (after : Text) : occurs (endTag nameEnds) (literal reals value) after =
    value.texts.any fun text => occurs (endTag [' ', '/']) text [] := by
  have apart : Apart ((['/', 's', 'c', 'r', 'i', 'p', 't'].map fun sign (c : Char) => decide (c.toLower = sign)) ++
      [fun c => decide (c ∈ nameEnds)]) := by
    unfold Apart
    rw [List.forall_mem_append, List.forall_mem_map]
    simp only [List.forall_mem_cons, List.not_mem_nil, false_imp_iff, implies_true, and_true]
    decide
  have name : unescaped (['/', 's', 'c', 'r', 'i', 'p', 't'].map fun sign (c : Char) => decide (c.toLower = sign)) =
      ['/', 's', 'c', 'r', 'i', 'p', 't'].map fun sign (c : Char) => decide (c.toLower = sign) := by
    have signs := List.all_eq_true.mp (by decide +kernel : ['/', 's', 'c', 'r', 'i', 'p', 't'].all verbatim = true)
    apply unescaped_map
    intro sign member c taken
    apply verbatim_of_toLower
    rw [of_decide_eq_true taken]
    exact signs sign member
  have ends : unescaped [fun c => decide (c ∈ nameEnds)] = [fun c => decide (c ∈ [' ', '/'])] := by
    apply congrArg (fun kind => [kind])
    funext c
    show (decide (c ∈ nameEnds) && verbatim c) = decide (c ∈ [' ', '/'])
    by_cases listed : c ∈ nameEnds
    · have signs := List.all_eq_true.mp (by decide +kernel : nameEnds.all (fun sign =>
        (decide (sign ∈ nameEnds) && verbatim sign) == decide (sign ∈ [' ', '/'])) = true)
      exact beq_iff_eq.mp (signs c listed)
    · have other : c ∉ [' ', '/'] := by
        intro member
        apply listed
        simp only [nameEnds, List.mem_cons, List.not_mem_nil, or_false] at member ⊢
        rcases member with blank | slash
        · simp [blank]
        · simp [slash]
      rw [decide_eq_false listed, decide_eq_false other, Bool.false_and]
  have written := occurs_writeValue apart value after
  have whole : unescaped ((['/', 's', 'c', 'r', 'i', 'p', 't'].map fun sign (c : Char) => decide (c.toLower = sign)) ++
      [fun c => decide (c ∈ nameEnds)]) = (['/', 's', 'c', 'r', 'i', 'p', 't'].map fun sign (c : Char) => decide (c.toLower = sign)) ++
        [fun c => decide (c ∈ [' ', '/'])] := by
    rw [unescaped, List.map_append]
    exact congrArg₂ _ name ends
  rw [whole] at written
  exact written

theorem inert_iff (value : Json reals.R) (scriptVarName : Text) : Inert reals value scriptVarName ↔ Safe value := by
  unfold Inert Safe
  simp only [occurs_comment, occurs_endTag, List.any_eq_false, Bool.not_eq_true]
  constructor
  · exact fun inert text member => ⟨(inert []).1 text member, (inert []).2 text member⟩
  · exact fun safe _ => ⟨fun text member => (safe text member).1, fun text member => (safe text member).2⟩

/-! ## Names and values -/

theorem unitsOf_ascii {text name : Text} (ascii : ∀ c ∈ text, c.toNat < 0x80) (same : unitsOf name = unitsOf text) :
    name = text := by
  induction text generalizing name with
  | nil =>
    cases name with
    | nil => rfl
    | cons d others =>
      have none := (List.append_eq_nil_iff.mp same).1
      unfold units at none
      split at none <;> cases none
  | cons c rest ih =>
    obtain ⟨small, others⟩ := List.forall_mem_cons.mp ascii
    have first : unitsOf (c :: rest) = c.toNat :: unitsOf rest := by
      rw [unitsOf, List.flatMap_cons, units_ascii (by omega)]
      rfl
    rw [first] at same
    cases name with
    | nil => cases same
    | cons d more =>
      rw [unitsOf, List.flatMap_cons] at same
      by_cases basic : d.toNat < 0x10000
      · rw [units_ascii basic] at same
        obtain ⟨unit, tail⟩ := List.cons.inj same
        rw [Char.toNat_inj.mp unit, ih others tail]
      · rw [units, if_neg basic] at same
        have unit := (List.cons.inj same).1
        omega

theorem ascii_prototype : ∀ c ∈ "__proto__".toList, c.toNat < 0x80 := by
  have all : ("__proto__".toList.all fun c => decide (c.toNat < 0x80)) = true := by decide +kernel
  exact fun c member => of_decide_eq_true (List.all_eq_true.mp all c member)

theorem length_made_members {R : Type} (members : Members R) : members.made.length = members.denoted.length := by
  cases members with
  | nil => rfl
  | cons name value rest => exact congrArg Nat.succ (length_made_members rest)

/-- Definitions are those of properties where none has the name of the prototype. -/
theorem ofDefinitions_iff {R : Type} {definitions properties : List (List Nat × Value R)}
    (length : definitions.length = properties.length) :
    Value.ofDefinitions definitions = .object none properties ↔
      definitions = properties ∧ ∀ definition ∈ definitions, definition.1 ≠ Value.prototypeName := by
  unfold Value.ofDefinitions
  rw [Value.object.injEq]
  constructor
  · intro same
    have all : definitions.filter (fun definition => definition.1 ≠ Value.prototypeName) = definitions := by
      apply List.filter_eq_self.mpr
      apply List.length_filter_eq_length_iff.mp
      rw [same.2, length]
    rw [all] at same
    have names := List.filter_eq_self.mp all
    exact ⟨same.2, fun definition member => of_decide_eq_true (names definition member)⟩
  · intro same
    obtain ⟨same, names⟩ := same
    have all : definitions.filter (fun definition => definition.1 ≠ Value.prototypeName) = definitions :=
      List.filter_eq_self.mpr fun definition member => decide_eq_true (names definition member)
    have none : definitions.filter (fun definition => definition.1 = Value.prototypeName ∧ definition.2.isPrototype) =
        [] := by
      apply List.filter_eq_nil_iff.mpr
      intro definition member
      simp [names definition member]
    rw [all, none, same]
    exact ⟨rfl, rfl⟩

mutual

theorem made_iff {R : Type} (value : Json R) : value.made = value.denoted ↔ value.Plain := by
  cases value with
  | null => exact ⟨fun _ => trivial, fun _ => rfl⟩
  | bool value => exact ⟨fun _ => trivial, fun _ => rfl⟩
  | integer number =>
    rw [Json.made, Json.denoted, Json.Plain, ← nearestInt_eq_iff]
    exact ⟨fun same => Value.integer.inj same, fun same => congrArg Value.integer same⟩
  | real number => exact ⟨fun _ => trivial, fun _ => rfl⟩
  | string text => exact ⟨fun _ => trivial, fun _ => rfl⟩
  | array items =>
    have inner := made_items_iff items
    rw [Json.made, Json.denoted, Json.Plain, ← inner]
    exact ⟨fun same => Value.array.inj same, fun same => congrArg Value.array same⟩
  | object members =>
    have inner := made_members_iff members
    rw [Json.made, Json.denoted, Json.Plain, ← inner]
    exact ofDefinitions_iff (length_made_members members)

theorem made_items_iff {R : Type} (items : Items R) : items.made = items.denoted ↔ items.Plain := by
  cases items with
  | nil => exact ⟨fun _ => trivial, fun _ => rfl⟩
  | cons item rest =>
    rw [Items.made, Items.denoted, List.cons.injEq, made_iff item, made_items_iff rest, Items.Plain]

theorem made_members_iff {R : Type} (members : Members R) :
    (members.made = members.denoted ∧ ∀ definition ∈ members.made, definition.1 ≠ Value.prototypeName) ↔
      members.Plain := by
  cases members with
  | nil => exact ⟨fun _ => trivial, fun _ => ⟨rfl, List.forall_mem_nil _⟩⟩
  | cons name value rest =>
    have first : unitsOf name ≠ Value.prototypeName ↔ name ≠ "__proto__".toList :=
      not_congr ⟨fun same => unitsOf_ascii ascii_prototype same, fun same => congrArg unitsOf same⟩
    rw [Members.made, Members.denoted, List.cons.injEq, Prod.mk.injEq, List.forall_mem_cons, Members.Plain,
      ← made_members_iff rest, made_iff value, first]
    tauto

end

theorem faithful_value_iff (value : Json reals.R) : Faithful reals value ↔ value.Plain := by
  unfold Faithful
  rw [readLiteral_literal, Option.some.injEq, made_iff]

end

/-- What is inserted is inert and faithful exactly without the two texts, the name and the numbers. -/
theorem inserted_values_iff (value : Json reals.R) (scriptVarName : Text) :
    replaceByJVar reals value scriptVarName = opening scriptVarName ++ literal reals value ++ closing scriptVarName ∧
      (Inert reals value scriptVarName ∧ Faithful reals value ↔ Safe value ∧ value.Plain) :=
  ⟨replaceByJVar_eq reals value scriptVarName, and_congr (inert_iff value scriptVarName) (faithful_value_iff value)⟩

end

/-- A library that is given no such numbers. -/
def wholeNumbers : Reals where
  R := Empty
  text := Empty.elim
  read _ := none
  read_text number := number.elim
  numeric number := number.elim
  marked number := number.elim

/-- A value that a visitor may have sent. -/
def sentValue : Json Empty := .string "</script ><img src=x onerror=alert(1)>".toList

/-- It ends the script of the page. -/
theorem sent_value_ends : ¬Inert wholeNumbers sentValue "name".toList ∧
    replaceByJVar wholeNumbers sentValue "name".toList =
      "<script>\nconst name = \"\\</script \\>\\<img src=x onerror=alert(1)\\>\";\n</script>".toList := by
  constructor
  · intro inert
    have found : occurs (endTag nameEnds) (literal wholeNumbers sentValue) (closing "name".toList ++ []) = true := by
      decide +kernel
    rw [(inert []).2] at found
    cases found
  · decide +kernel

end Mantids.RPC.InsertedValues
