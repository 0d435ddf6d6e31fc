import Mantids.Protocols.MimeHeader
import Mantids.Protocols.UrlVars

/-! The lookups of the two kinds of variables (`common_urlvars.cpp`, `mime_message.cpp`): six loops over what
`equal_range` finds, of which two do not advance. -/

set_option autoImplicit false

namespace Mantids.Vars

open Memory Library

section
variable {V R : Type}

/-- `for (i = range.first; i != range.second; advance)`, over what is left of the range: `none` when the loop has not
come to the end in so many turns. -/
def forRange (advance : List V → List V) (body : V → R → R) : (turns : Nat) → (range : List V) → R → Option R
  | _, [], r => some r
  | 0, _ :: _, _ => none
  | turns + 1, i :: rest, r => forRange advance body turns (advance (i :: rest)) (body i r)

/-- A loop that returns from its first turn. -/
def firstOf (range : List V) : Option V :=
  match range with
  | [] => none
  | i :: _ => some i

/-- With `++i` every element is visited. -/
theorem forRange_tail (body : V → R → R) {turns : Nat} {range : List V} (enough : range.length ≤ turns) (r : R) :
    forRange List.tail body turns range r = some (range.foldl (fun r i => body i r) r) := by
  induction range generalizing turns r with
  | nil => cases turns <;> rfl
  | cons i rest ih =>
    cases turns with
    | zero => exact absurd enough (Nat.not_succ_le_zero _)
    | succ turns =>
      rw [forRange, List.foldl_cons]
      exact ih (Nat.le_of_succ_le_succ enough) _

/-- And the loop ends with no other result. -/
theorem forRange_tail_ended {body : V → R → R} {turns : Nat} {range : List V} {r result : R}
    (ended : forRange List.tail body turns range r = some result) : result = range.foldl (fun r i => body i r) r := by
  induction range generalizing turns r with
  | nil => cases turns <;> exact (Option.some.inj ended).symm
  | cons i rest ih =>
    cases turns with
    | zero => cases ended
    | succ turns => exact ih ended

/-- Without it the loop stays where it is. -/
theorem forRange_stuck (body : V → R → R) (i : V) (rest : List V) (turns : Nat) (r : R) :
    forRange id body turns (i :: rest) r = none := by
  induction turns generalizing r with
  | zero => rfl
  | succ turns ih => exact ih _

end

/-- The functions of `Vars` that look up a name; two of them are loops. -/
structure Lookup (V : Type) where
  varCount : (varName : Bytes) → (turns : Nat) → Option Nat
  getValue : (varName : Bytes) → Option V
  getValues : (varName : Bytes) → (turns : Nat) → Option (List V)

/-- The lookups of a name end, and tell these values. -/
structure Lookup.Tells {V : Type} (vars : Lookup V) (varName : Bytes) (stored : List V) : Prop where
  varCount : ∃ turns, vars.varCount varName turns = some stored.length
  getValue : vars.getValue varName = stored.head?
  getValues : ∃ turns, vars.getValues varName turns = some stored

section
variable {V : Type}

/-- Variables under their names in capital letters; there are none without a name. -/
def added (history : List (Bytes × V)) : Multimap Bytes V :=
  history.foldl
    (fun vars entry => if entry.1 = [] then vars else vars.insert (HTTP.toUpper entry.1) entry.2) .empty

/-- The values of the history with that name up to case, in the order in which they were added. -/
def named (history : List (Bytes × V)) (varName : Bytes) : List V :=
  (history.filter fun entry => entry.1 ≠ [] && HTTP.toUpper entry.1 = HTTP.toUpper varName).map (·.2)

theorem named_append (first second : List (Bytes × V)) (varName : Bytes) :
    named (first ++ second) varName = named first varName ++ named second varName := by
  rw [named, List.filter_append, List.map_append]
  rfl

theorem added_snoc (history : List (Bytes × V)) (entry : Bytes × V) : added (history ++ [entry]) =
    if entry.1 = [] then added history else (added history).insert (HTTP.toUpper entry.1) entry.2 := by
  rw [added, List.foldl_append]
  rfl

/-- What a name's range is. -/
theorem values_added (history : List (Bytes × V)) (varName : Bytes) :
    (added history).values (HTTP.toUpper varName) = named history varName := by
  induction history using List.reverseRecOn with
  | nil => rfl
  | append_singleton history entry ih =>
    rw [added_snoc, named_append, ← ih]
    by_cases unnamed : entry.1 = []
    · rw [if_pos unnamed]
      simp [named, unnamed]
    · rw [if_neg unnamed, Multimap.values_insert]
      by_cases same : HTTP.toUpper entry.1 = HTTP.toUpper varName
      · rw [if_pos same.symm]
        simp [named, unnamed, same]
      · rw [if_neg (Ne.symm same)]
        simp [named, same]

end

/-! ## URL variables -/

section
variable {V : Type} (vars : Multimap Bytes V)

/-- `URLVars`: the counter is a number of 32 bits, and its loop does not advance. -/
def urlVarsCount (varName : Bytes) (turns : Nat) : Option Nat :=
  forRange id (fun _ i => (i + 1) % 2 ^ 32) turns (vars.values (HTTP.toUpper varName)) 0

def urlVarsGetValue (varName : Bytes) : Option V := firstOf (vars.values (HTTP.toUpper varName))

def urlVarsGetValues (varName : Bytes) (turns : Nat) : Option (List V) :=
  forRange id (fun iterator r => r ++ [iterator]) turns (vars.values (HTTP.toUpper varName)) []

def urlVars : Lookup V := ⟨urlVarsCount vars, urlVarsGetValue vars, urlVarsGetValues vars⟩

end

/-- What `changeToNextParser` adds. -/
def flushed (u : HTTP.UrlVars) : List (Bytes × Bytes) :=
  match u.currentStat with
  | .waitingName => if u.delimiterFound = [HTTP.ampersand] ∨ u.delimiterFound = [] then [(u.pData, [])] else []
  | .waitingContent => [(u.currentVarName, u.pData)]

/-- The states of the parser and of its callers, with the variables that were added on the way. -/
inductive Reaches : HTTP.UrlVars → List (Bytes × Bytes) → Prop where
  | new : Reaches .new []
  | addVar {u : HTTP.UrlVars} {history : List (Bytes × Bytes)} (varName data : Bytes) :
      Reaches u history → Reaches (u.addVar varName data) (history ++ [(varName, data)])
  | parse {u : HTTP.UrlVars} {history : List (Bytes × Bytes)} (settings : Streams.Settings)
      (presented : Streams.Presented) : Reaches u history → Reaches (HTTP.UrlVars.parse u settings presented).2.2 history
  | change {u u' : HTTP.UrlVars} {history : List (Bytes × Bytes)} (settings : Option Streams.Settings) :
      Reaches u history → u.changeToNextParser = some (settings, u') → Reaches u' (history ++ flushed u)

theorem vars_addVar (u : HTTP.UrlVars) (varName data : Bytes) : (u.addVar varName data).vars =
    if varName = [] then u.vars else u.vars.insert (HTTP.toUpper varName) data := by
  unfold HTTP.UrlVars.addVar
  split <;> rfl

theorem vars_parse (u : HTTP.UrlVars) (settings : Streams.Settings) (presented : Streams.Presented) :
    (HTTP.UrlVars.parse u settings presented).2.2.vars = u.vars := by
  cases presented <;> rfl

/-- The variables of a state are those that were added. -/
theorem Reaches.vars {u : HTTP.UrlVars} {history : List (Bytes × Bytes)} (reaches : Reaches u history) :
    u.vars = added history := by
  induction reaches with
  | new => rfl
  | addVar varName data _ ih => rw [vars_addVar, added_snoc, ih]
  | parse settings presented _ ih => rw [vars_parse, ih]
  | @change u u' history settings _ next ih =>
    unfold HTTP.UrlVars.changeToNextParser at next
    unfold flushed
    cases stat : u.currentStat with
    | waitingName =>
      rw [stat] at next
      dsimp only at next ⊢
      split at next
      case isTrue flushes =>
        cases next
        rw [if_pos flushes, vars_addVar, added_snoc, ← ih]
      case isFalse keeps =>
        cases next
        rw [if_neg keeps, List.append_nil, ← ih]
    | waitingContent =>
      rw [stat] at next
      cases next
      rw [added_snoc, ← ih]
      exact vars_addVar u u.currentVarName u.pData

/-! ## Parts of a message -/

/-- A part with the container of its content. -/
structure PartMessage (V : Type) where
  header : MIME.MIMESubHeader
  contentContainer : V

/-- `MIME_Message`, of which the parts and their index are left. -/
structure Message (V : Type) where
  allParts : List (PartMessage V)
  partsByName : Multimap Bytes (PartMessage V)

namespace Message

section
variable {V : Type}

def new : Message V := ⟨[], .empty⟩

def getMultiPartMessageName (part : PartMessage V) : Bytes :=
  match part.header.getOptionByName (MIME.ascii "content-disposition") with
  | some opt => opt.getSubVar (MIME.ascii "name")
  | none => []

def addMultiPartMessage (message : Message V) (part : PartMessage V) : Message V :=
  let varName := getMultiPartMessageName part
  { allParts := message.allParts ++ [part]
    partsByName :=
      if varName = [] then message.partsByName else message.partsByName.insert (HTTP.toUpper varName) part }

variable (message : Message V)

def varCount (varName : Bytes) (turns : Nat) : Option Nat :=
  forRange List.tail (fun _ ix => (ix + 1) % 2 ^ 32) turns (message.partsByName.values (HTTP.toUpper varName)) 0

def getValue (varName : Bytes) : Option V :=
  (firstOf (message.partsByName.values (HTTP.toUpper varName))).map (·.contentContainer)

def getValues (varName : Bytes) (turns : Nat) : Option (List V) :=
  forRange List.tail (fun i values => values ++ [i.contentContainer]) turns
    (message.partsByName.values (HTTP.toUpper varName)) []

def vars : Lookup V := ⟨message.varCount, message.getValue, message.getValues⟩

/-- The parts under their names, in the order in which they were added. -/
def entries : List (Bytes × V) :=
  message.allParts.map fun part => (getMultiPartMessageName part, part.contentContainer)

end

/-- Only `addMultiPartMessage` adds a part. -/
inductive Built {V : Type} : Message V → Prop where
  | new : Built .new
  | add {message : Message V} (part : PartMessage V) : Built message → Built (message.addMultiPartMessage part)

theorem Built.partsByName {V : Type} {message : Message V} (built : Built message) :
    message.partsByName = added (message.allParts.map fun part => (getMultiPartMessageName part, part)) := by
  induction built with
  | new => rfl
  | add part _ ih =>
    rw [addMultiPartMessage, List.map_append, List.map_singleton, added_snoc, ← ih]

/-- What is found by a name. -/
theorem Built.values {V : Type} {message : Message V} (built : Built message) (varName : Bytes) :
    (message.partsByName.values (HTTP.toUpper varName)).map (·.contentContainer) = named message.entries varName := by
  rw [built.partsByName, values_added, named, named, entries, List.filter_map, List.filter_map, List.map_map,
    List.map_map, List.map_map]
  rfl

end Message

/-! ## What the lookups tell -/

section
variable {V W : Type}

/-- Counted in 32 bits. -/
theorem foldl_count (range : List W) (count : Nat) :
    range.foldl (fun ix _ => (ix + 1) % 2 ^ 32) (count % 2 ^ 32) = (count + range.length) % 2 ^ 32 := by
  induction range generalizing count with
  | nil => rfl
  | cons _ rest ih =>
    rw [List.foldl_cons, Nat.mod_add_mod, ih, List.length_cons, Nat.add_assoc, Nat.add_comm 1]

theorem foldl_collect (value : W → V) (range : List W) (values : List V) :
    range.foldl (fun values i => values ++ [value i]) values = values ++ range.map value := by
  induction range generalizing values with
  | nil => exact (List.append_nil values).symm
  | cons i rest ih => rw [List.foldl_cons, ih, List.map_cons, List.append_assoc, List.singleton_append]

end

/-- The lookups of URL variables end where there is no variable with the name. -/
theorem urlVars_tells_iff {u : HTTP.UrlVars} {history : List (Bytes × Bytes)} (reaches : Reaches u history)
    (varName : Bytes) : (urlVars u.vars).Tells varName (named history varName) ↔ named history varName = [] := by
  have range : u.vars.values (HTTP.toUpper varName) = named history varName := by
    rw [reaches.vars, values_added]
  constructor
  · intro tells
    obtain ⟨turns, ended⟩ := tells.varCount
    cases stored : named history varName with
    | nil => rfl
    | cons i rest =>
      have stuck : urlVarsCount u.vars varName turns = none := by
        rw [urlVarsCount, range, stored]
        exact forRange_stuck _ i rest turns 0
      cases stuck.symm.trans ended
  · intro none
    rw [none] at range ⊢
    constructor
    · refine ⟨0, ?_⟩
      show urlVarsCount u.vars varName 0 = _
      rw [urlVarsCount, range]
      rfl
    · show urlVarsGetValue u.vars varName = _
      rw [urlVarsGetValue, range]
      rfl
    · refine ⟨0, ?_⟩
      show urlVarsGetValues u.vars varName 0 = _
      rw [urlVarsGetValues, range]
      rfl

/-- The first value is found in any case. -/
theorem urlVars_getValue {u : HTTP.UrlVars} {history : List (Bytes × Bytes)} (reaches : Reaches u history)
    (varName : Bytes) : (urlVars u.vars).getValue varName = (named history varName).head? := by
  show urlVarsGetValue u.vars varName = _
  rw [urlVarsGetValue, reaches.vars, values_added]
  cases named history varName <;> rfl

/-- Those of the parts of a message always do, and tell what is stored unless it is more than 32 bits can count. -/
theorem message_tells_iff {V : Type} {message : Message V} (built : message.Built) (varName : Bytes) :
    message.vars.Tells varName (named message.entries varName) ↔ (named message.entries varName).length < 2 ^ 32 := by
  have values := built.values varName
  generalize found : message.partsByName.values (HTTP.toUpper varName) = range at values
  have count : range.foldl (fun ix _ => (ix + 1) % 2 ^ 32) 0 = range.length % 2 ^ 32 := by
    have counted := foldl_count range 0
    rwa [Nat.zero_mod, Nat.zero_add] at counted
  rw [← values, List.length_map]
  constructor
  · intro tells
    obtain ⟨turns, ended⟩ := tells.varCount
    have told : message.varCount varName turns = some range.length := by
      rw [← @List.length_map _ _ range fun part => part.contentContainer]
      exact ended
    rw [Message.varCount, found] at told
    have all := forRange_tail_ended told
    rw [count] at all
    rw [all]
    exact Nat.mod_lt _ (by decide)
  · intro few
    constructor
    · refine ⟨range.length, ?_⟩
      show message.varCount varName range.length = _
      rw [Message.varCount, found, forRange_tail _ (Nat.le_refl _), count, Nat.mod_eq_of_lt few, List.length_map]
    · show message.getValue varName = _
      rw [Message.getValue, found]
      cases range <;> rfl
    · refine ⟨range.length, ?_⟩
      show message.getValues varName range.length = _
      rw [Message.getValues, found, forRange_tail _ (Nat.le_refl _), foldl_collect, List.nil_append]

/-- So the two kinds of variables are looked up in the same way where there is nothing to be found; the first value
of a URL variable is found in any case. -/
theorem tells_iff {V : Type} {u : HTTP.UrlVars} {history : List (Bytes × Bytes)} (reaches : Reaches u history)
    {message : Message V} (built : message.Built) (varName : Bytes) :
    ((urlVars u.vars).Tells varName (named history varName) ↔ named history varName = []) ∧
      (urlVars u.vars).getValue varName = (named history varName).head? ∧
      (message.vars.Tells varName (named message.entries varName) ↔ (named message.entries varName).length < 2 ^ 32) :=
  ⟨urlVars_tells_iff reaches varName, urlVars_getValue reaches varName, message_tells_iff built varName⟩

/-- A variable `a`, looked up as `A`. -/
theorem tells_iff_one :
    ((urlVars (HTTP.UrlVars.new.addVar [97] [49]).vars).Tells [65] (named [([97], [49])] [65]) ↔
        named [([97], [49])] [65] = ([] : List Bytes)) ∧
      (urlVars (HTTP.UrlVars.new.addVar [97] [49]).vars).getValue [65] = (named [([97], [49])] [65]).head? ∧
      ((Message.new : Message Bytes).vars.Tells [65] (named (Message.new : Message Bytes).entries [65]) ↔
        (named (Message.new : Message Bytes).entries [65]).length < 2 ^ 32) :=
  tells_iff (.addVar [97] [49] .new) .new [65]

/-- Its count never comes to an end. -/
theorem not_tells : ¬∀ u history varName, Reaches u history →
    ∃ turns, (urlVars u.vars).varCount varName turns = some (named history varName).length := by
  intro all
  obtain ⟨turns, ended⟩ := all _ _ [65] (.addVar [97] [49] .new)
  have stuck : urlVarsCount (HTTP.UrlVars.new.addVar [97] [49]).vars [65] turns = none := forRange_stuck _ _ _ turns 0
  cases stuck.symm.trans ended

end Mantids.Vars
