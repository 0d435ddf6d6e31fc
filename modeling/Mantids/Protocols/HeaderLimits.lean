import Mantids.Library.Runs
import Mantids.Protocols.HeaderLines

/-! The limits of a header block, in every run of calls and lines. -/

set_option autoImplicit false

namespace Mantids.MIME

open Memory Library

/-! ## One option -/

namespace MIMEHeaderOption

/-- The names and the values of the sub values. -/
def subSize (option : MIMEHeaderOption) : Nat :=
  option.subVar.weight fun varName varValue => varName.length + varValue.length

/-- An option keeps within the limits of its constructor. -/
structure Fits (option : MIMEHeaderOption) : Prop where
  maxSubOptionsCount : option.maxSubOptionsCount = 16
  maxHeaderOptSize : option.maxHeaderOptSize = 8 * 1024
  counted : option.curHeaderOptSize = option.subSize
  count : option.subVar.entries.length ≤ option.maxSubOptionsCount
  size : option.curHeaderOptSize ≤ option.maxHeaderOptSize

section
variable {option : MIMEHeaderOption}

theorem Fits.addSubVar (fits : option.Fits) (varName varValue : Bytes) : (option.addSubVar varName varValue).Fits := by
  unfold MIMEHeaderOption.addSubVar
  split
  · exact fits
  split
  · exact fits
  split
  · exact fits
  split
  · exact fits
  · rename_i _ few small _
    constructor
    case maxSubOptionsCount => exact fits.maxSubOptionsCount
    case maxHeaderOptSize => exact fits.maxHeaderOptSize
    case counted =>
      simp only [subSize, Multimap.weight_insert]
      rw [fits.counted, subSize]
    case count =>
      simp only [Multimap.length_insert]
      omega
    case size =>
      dsimp only
      omega

theorem Fits.addPart (fits : option.Fits) (restore : Bytes → Bytes) (value : Bytes) :
    (option.addPart restore value).Fits := by
  unfold MIMEHeaderOption.addPart
  split
  · exact fits.addSubVar _ _
  · exact fits.addSubVar _ _

theorem Fits.foldl_addPart (fits : option.Fits) (restore : Bytes → Bytes) (values : List Bytes) :
    (values.foldl (MIMEHeaderOption.addPart restore) option).Fits := by
  induction values generalizing option with
  | nil => exact fits
  | cons value rest ih => exact ih (fits.addPart restore value)

theorem Fits.parseSubValues (fits : option.Fits) (secureReplace : RandomString) (strName : Bytes) :
    (option.parseSubValues secureReplace strName).Fits := by
  have given : Fits { option with origValue := strName } :=
    ⟨fits.maxSubOptionsCount, fits.maxHeaderOptSize, fits.counted, fits.count, fits.size⟩
  have parts := given.foldl_addPart (replaceBack secureReplace (takeOut secureReplace strName.length [] (trim strName)).1)
    (HTTP.split (· = semicolon) (takeOut secureReplace strName.length [] (trim strName)).2)
  exact ⟨parts.maxSubOptionsCount, parts.maxHeaderOptSize, parts.counted, parts.count, parts.size⟩

end

end MIMEHeaderOption

/-! ## Runs -/

/-- A block with the limits that are configured for the sub values; the constructor leaves them open. -/
structure ConfiguredHeader where
  header : MIMESubHeader
  maxSubOptionCount : Option Nat
  maxSubOptionSize : Option Nat
  /-- The option last added has been removed. -/
  lastRemoved : Bool

inductive HeaderOp where
  | add (optionName optionValue : Bytes) (state : Nat)
  | replace (optionName optionValue : Bytes)
  | remove (optionName : Bytes)
  | setMaxOptions (value : Nat)
  | setMaxSubOptionCount (value : Nat)
  | setMaxSubOptionSize (value : Nat)
  /-- A line that is not empty has been parsed. -/
  | parseOptionValue (optionValue : Bytes)

/-- The line goes on with the last option. -/
def isContinuation (optionValue : Bytes) : Prop := optionValue.head? = some 32 ∨ optionValue.head? = some 9

namespace ConfiguredHeader

def new : ConfiguredHeader := ⟨.new, none, none, false⟩

/-- The last option has this name. -/
def takesLast (header : MIMESubHeader) (optionName : Bytes) : Bool :=
  (header.headers.values (HTTP.toUpper optionName)).any fun option => some option.allocation = header.lastOpt

section
variable (random : Nat → RandomString)

/-- A new option is the last one. -/
def follow (s : ConfiguredHeader) (header : MIMESubHeader) (takes : Bool) : ConfiguredHeader :=
  { s with
    header := header
    lastRemoved := if header.allocated = s.header.allocated then s.lastRemoved || takes else false }

def step (s : ConfiguredHeader) : HeaderOp → ConfiguredHeader
  | .add optionName optionValue state => s.follow (s.header.add random optionName optionValue state).2 false
  | .replace optionName optionValue =>
    s.follow (s.header.replace random optionName optionValue) (takesLast s.header optionName)
  | .remove optionName => s.follow (s.header.remove optionName) (takesLast s.header optionName)
  | .setMaxOptions value => { s with header := { s.header with maxOptions := value } }
  | .setMaxSubOptionCount value => { s with maxSubOptionCount := some value }
  | .setMaxSubOptionSize value => { s with maxSubOptionSize := some value }
  | .parseOptionValue optionValue => s.follow (s.header.parseOptionValue random optionValue) false

def Continues : HeaderOp → Prop
  | .add _ _ state => state = 1
  | .parseOptionValue optionValue => isContinuation optionValue
  | _ => False

/-- What is inserted is within the number of options, what is stored within the limits for sub values,
and what is gone on with is stored. -/
structure Obeys (s : ConfiguredHeader) (op : HeaderOp) : Prop where
  options : (s.step random op).header.allocated ≠ s.header.allocated →
    (s.step random op).header.headers.entries.length ≤ (s.step random op).header.maxOptions
  count : ∀ entry ∈ (s.step random op).header.headers.entries, ∀ limit ∈ (s.step random op).maxSubOptionCount,
    entry.2.subVar.entries.length ≤ limit
  size : ∀ entry ∈ (s.step random op).header.headers.entries, ∀ limit ∈ (s.step random op).maxSubOptionSize,
    entry.2.subSize ≤ limit
  continued : Continues op → ∀ allocation ∈ s.header.lastOpt,
    ∃ entry ∈ s.header.headers.entries, entry.2.allocation = allocation

/-- No option is added to more than there may be, the limits for sub values are not below those of
an option's constructor, and the last option has not been removed when a line goes on with it. -/
def Careful (s : ConfiguredHeader) : HeaderOp → Prop
  | .add _ _ state =>
    (state = 0 → s.header.headers.entries.length ≤ s.header.maxOptions) ∧ (state = 1 → s.lastRemoved = false)
  | .replace optionName _ => (s.header.remove optionName).headers.entries.length ≤ s.header.maxOptions
  | .setMaxSubOptionCount value => 16 ≤ value
  | .setMaxSubOptionSize value => 8 * 1024 ≤ value
  | .parseOptionValue optionValue =>
    (isContinuation optionValue → s.lastRemoved = false) ∧
      (¬isContinuation optionValue → [58, 32] <:+: optionValue →
        s.header.headers.entries.length ≤ s.header.maxOptions)
  | _ => True

/-! ## What a call does to a block -/

/-- Every option keeps within its own limits. -/
def AllFit (header : MIMESubHeader) : Prop := ∀ entry ∈ header.headers.entries, entry.2.Fits

/-- The last option is stored. -/
def LastStored (header : MIMESubHeader) : Prop :=
  ∀ allocation ∈ header.lastOpt, ∃ entry ∈ header.headers.entries, entry.2.allocation = allocation

/-- Nothing happens, an option is inserted, or the last one is given another value. -/
inductive Changed (header : MIMESubHeader) : MIMESubHeader → Prop where
  | same : Changed header header
  | inserted (key : Bytes) {option : MIMEHeaderOption} (fits : option.Fits) (fresh : option.allocation = header.allocated)
      (room : header.headers.entries.length ≠ header.maxOptions) :
      Changed header
        { header with
          headers := header.headers.insert key option
          lastOpt := some header.allocated
          allocated := header.allocated + 1
          drawn := header.drawn + 1 }
  | continued (optionValue : Bytes) (lastOpt : Nat) :
      Changed header
        { header with
          headers := header.headers.map fun option =>
            if option.allocation = lastOpt then option.parseSubValues (random header.drawn) optionValue else option
          drawn := header.drawn + 1 }

theorem changed_add (header : MIMESubHeader) (optionName optionValue : Bytes) (state : Nat) :
    Changed random header (header.add random optionName optionValue state).2 := by
  unfold MIMESubHeader.add
  split
  · split
    · exact .same
    · rename_i room
      refine .inserted _ ?_ (MIMEHeaderOption.allocation_parseSubValues _ _ _) room
      exact MIMEHeaderOption.Fits.parseSubValues ⟨rfl, rfl, rfl, Nat.zero_le _, Nat.zero_le _⟩ _ _
  · split
    · split
      · exact .continued optionValue _
      · exact .same
    · exact .same

/-- Only state 0 inserts. -/
theorem allocated_add (header : MIMESubHeader) (optionName optionValue : Bytes) {state : Nat} (other : state ≠ 0) :
    (header.add random optionName optionValue state).2.allocated = header.allocated := by
  unfold MIMESubHeader.add
  rw [if_neg other]
  split
  · split
    · rfl
    · rfl
  · rfl

theorem changed_parseOptionValue (header : MIMESubHeader) (optionValue : Bytes) :
    Changed random header (header.parseOptionValue random optionValue) := by
  unfold MIMESubHeader.parseOptionValue
  split
  · exact changed_add random header _ _ _
  · split
    · exact changed_add random header _ _ _
    · exact .same

variable {random} {header header' : MIMESubHeader}

theorem Changed.allFit (changed : Changed random header header') (fit : AllFit header) : AllFit header' := by
  cases changed with
  | same => exact fit
  | inserted key fits fresh room =>
    intro entry member
    rcases Multimap.mem_insert.mp member with rfl | old
    · exact fits
    · exact fit entry old
  | continued optionValue lastOpt =>
    intro entry member
    obtain ⟨old, inside, rfl⟩ := List.mem_map.mp member
    dsimp only
    split
    · exact (fit old inside).parseSubValues _ _
    · exact fit old inside

/-- A new option is stored and the last one; else the last one stays, and is stored if it was. -/
theorem Changed.last (changed : Changed random header header')
    (stored : header'.allocated = header.allocated → LastStored header) : LastStored header' := by
  cases changed with
  | same => exact stored rfl
  | inserted key fits fresh room =>
    intro allocation last
    have same := Option.some.inj (Option.mem_def.mp last)
    exact ⟨_, Multimap.mem_insert.mpr (.inl rfl), fresh.trans same⟩
  | continued optionValue lastOpt =>
    intro allocation last
    obtain ⟨entry, member, same⟩ := stored rfl allocation last
    refine ⟨_, List.mem_map_of_mem member, ?_⟩
    dsimp only
    split
    · rw [MIMEHeaderOption.allocation_parseSubValues]
      exact same
    · exact same

theorem Changed.options (changed : Changed random header header') (grows : header'.allocated ≠ header.allocated)
    (few : header.headers.entries.length ≤ header.maxOptions) :
    header'.headers.entries.length ≤ header'.maxOptions := by
  cases changed with
  | same => exact absurd rfl grows
  | inserted key fits fresh room =>
    rw [Multimap.length_insert]
    dsimp only
    omega
  | continued => exact absurd rfl grows

theorem allFit_remove (fit : AllFit header) (optionName : Bytes) : AllFit (header.remove optionName) :=
  fun entry member => fit entry (List.mem_filter.mp member).1

/-- What has another name than the last option leaves it stored. -/
theorem lastStored_remove (stored : LastStored header) {optionName : Bytes}
    (other : takesLast header optionName = false) : LastStored (header.remove optionName) := by
  intro allocation last
  obtain ⟨entry, member, same⟩ := stored allocation last
  refine ⟨entry, List.mem_filter.mpr ⟨member, ?_⟩, same⟩
  refine decide_eq_true fun named => ?_
  rw [takesLast, List.any_eq_false] at other
  have value : entry.2 ∈ header.headers.values (HTTP.toUpper optionName) := by
    rw [Multimap.mem_values, ← named]
    exact member
  refine other entry.2 value (decide_eq_true ?_)
  rw [same]
  exact (Option.mem_def.mp last).symm

/-! ## Every run -/

structure Inv (s : ConfiguredHeader) : Prop where
  fit : AllFit s.header
  last : s.lastRemoved = false → LastStored s.header
  count : ∀ limit ∈ s.maxSubOptionCount, 16 ≤ limit
  size : ∀ limit ∈ s.maxSubOptionSize, 8 * 1024 ≤ limit

variable {s : ConfiguredHeader}

theorem Inv.obeys (inv : Inv s) {op : HeaderOp} (after : Inv (s.step random op))
    (options : (s.step random op).header.allocated ≠ s.header.allocated →
      (s.step random op).header.headers.entries.length ≤ (s.step random op).header.maxOptions)
    (continued : Continues op → s.lastRemoved = false) : s.Obeys random op where
  options := options
  count := by
    intro entry member limit set
    have fits := after.fit entry member
    have own := fits.count
    rw [fits.maxSubOptionsCount] at own
    exact Nat.le_trans own (after.count limit set)
  size := by
    intro entry member limit set
    have fits := after.fit entry member
    have own := fits.size
    rw [fits.maxHeaderOptSize, fits.counted] at own
    exact Nat.le_trans own (after.size limit set)
  continued := fun goesOn => inv.last (continued goesOn)

/-- A call that changes a block from which a name has been taken out before, or none has. -/
theorem Inv.follow (inv : Inv s) {takes : Bool} (fit : AllFit header)
    (last : s.lastRemoved = false → takes = false → LastStored header) (same : header.allocated = s.header.allocated)
    (changed : Changed random header header') : Inv (s.follow header' takes) := by
  constructor
  case fit => exact changed.allFit fit
  case last =>
    intro kept
    apply changed.last
    intro still
    rw [same] at still
    simp only [ConfiguredHeader.follow, still, if_true, Bool.or_eq_false_iff] at kept
    exact last kept.1 kept.2
  case count => exact inv.count
  case size => exact inv.size

theorem Inv.step (inv : Inv s) {op : HeaderOp} (careful : s.Careful op) :
    Inv (s.step random op) ∧ s.Obeys random op := by
  cases op with
  | add optionName optionValue state =>
    have changed := changed_add random s.header optionName optionValue state
    have after : Inv (s.step random (.add optionName optionValue state)) :=
      inv.follow inv.fit (fun kept _ => inv.last kept) rfl changed
    refine ⟨after, inv.obeys after (fun grows => ?_) careful.2⟩
    by_cases new : state = 0
    · exact changed.options grows (careful.1 new)
    · exact absurd (allocated_add random s.header optionName optionValue new) grows
  | replace optionName optionValue =>
    have changed := changed_add random (s.header.remove optionName) optionName optionValue 0
    have after : Inv (s.step random (.replace optionName optionValue)) :=
      inv.follow (allFit_remove inv.fit optionName) (fun kept other => lastStored_remove (inv.last kept) other) rfl
        changed
    exact ⟨after, inv.obeys after (fun grows => changed.options grows careful) False.elim⟩
  | remove optionName =>
    have after : Inv (s.step random (.remove optionName)) :=
      @Inv.follow random _ _ _ inv _ (allFit_remove inv.fit optionName)
        (fun kept other => lastStored_remove (inv.last kept) other) rfl .same
    exact ⟨after, inv.obeys after (fun grows => absurd rfl grows) False.elim⟩
  | setMaxOptions value =>
    have after : Inv (s.step random (.setMaxOptions value)) := ⟨inv.fit, inv.last, inv.count, inv.size⟩
    exact ⟨after, inv.obeys after (fun grows => absurd rfl grows) False.elim⟩
  | setMaxSubOptionCount value =>
    have after : Inv (s.step random (.setMaxSubOptionCount value)) := by
      refine ⟨inv.fit, inv.last, fun limit set => ?_, inv.size⟩
      rw [← Option.some.inj (Option.mem_def.mp set)]
      exact careful
    exact ⟨after, inv.obeys after (fun grows => absurd rfl grows) False.elim⟩
  | setMaxSubOptionSize value =>
    have after : Inv (s.step random (.setMaxSubOptionSize value)) := by
      refine ⟨inv.fit, inv.last, inv.count, fun limit set => ?_⟩
      rw [← Option.some.inj (Option.mem_def.mp set)]
      exact careful
    exact ⟨after, inv.obeys after (fun grows => absurd rfl grows) False.elim⟩
  | parseOptionValue optionValue =>
    have changed := changed_parseOptionValue random s.header optionValue
    have after : Inv (s.step random (.parseOptionValue optionValue)) :=
      inv.follow inv.fit (fun kept _ => inv.last kept) rfl changed
    refine ⟨after, inv.obeys after (fun grows => ?_) careful.1⟩
    apply changed.options grows
    have inserts : ¬isContinuation optionValue ∧ [58, 32] <:+: optionValue := by
      by_contra other
      apply grows
      change (s.header.parseOptionValue random optionValue).allocated = s.header.allocated
      unfold MIMESubHeader.parseOptionValue
      split
      · exact allocated_add random s.header [] optionValue Nat.one_ne_zero
      · rename_i begins
        split
        · rename_i found occurs
          have here := (Library.occurrence_eq_some_iff.mp occurs).2.1
          exact absurd ⟨begins, here.isInfix.trans (List.drop_suffix _ _).isInfix⟩ other
        · rfl
    exact careful.2 inserts.1 inserts.2

end

theorem inv_new : Inv new where
  fit := fun _ member => by cases member
  last := fun _ _ impossible => by cases impossible
  count := fun _ impossible => by cases impossible
  size := fun _ impossible => by cases impossible

theorem limits_hold (random : Nat → RandomString) (run : List HeaderOp)
    (careful : Along (step random) Careful new run) : Along (step random) (Obeys random) new run :=
  along_good Inv (fun _ _ inv careful => inv.step careful) inv_new careful

/-- The random strings of a test. -/
def letters : Nat → RandomString := fun _ => .letters

/-- The limits as a message sets them, an option that is gone on with, and one that is taken out again. -/
theorem limits_hold_message : Along (step letters) (Obeys letters) new
    [.setMaxOptions 64, .setMaxSubOptionCount 16, .setMaxSubOptionSize 8192, .add (ascii "a") (ascii "x; y=z") 0,
      .parseOptionValue (ascii " w"), .remove (ascii "a"), .parseOptionValue (ascii "b: c"),
      .parseOptionValue (ascii "\td")] := by
  apply limits_hold
  refine ⟨trivial, Nat.le_refl 16, Nat.le_refl 8192, ⟨fun _ => Nat.zero_le _, fun impossible => by cases impossible⟩,
    ⟨fun _ => rfl, ?_⟩, trivial, ⟨?_, fun _ _ => Nat.zero_le _⟩, ⟨fun _ => rfl, ?_⟩, trivial⟩
  · exact fun plain => absurd (.inl rfl) plain
  · exact fun continues => by cases continues <;> contradiction
  · exact fun plain => absurd (.inr rfl) plain

/-- A block with more options than there may be takes another one, a limit for sub values never reaches
an option, and a line goes on with an option that has been removed. -/
theorem limits_broken :
    ¬Along (step letters) (Obeys letters) new
        [.add (ascii "a") [] 0, .add (ascii "b") [] 0, .setMaxOptions 1, .add (ascii "c") [] 0] ∧
      ¬Along (step letters) (Obeys letters) new
        [.setMaxSubOptionCount 1, .add (ascii "a") (ascii "x;y") 0] ∧
      ¬Along (step letters) (Obeys letters) new
        [.add (ascii "a") [] 0, .remove (ascii "a"), .parseOptionValue (ascii " x")] := by
  refine ⟨?_, ?_, ?_⟩
  · rintro ⟨-, -, -, last, -⟩
    have options := last.options
    revert options
    decide +kernel
  · rintro ⟨-, last, -⟩
    have count := last.count
    revert count
    decide +kernel
  · rintro ⟨-, -, last, -⟩
    obtain ⟨entry, member, -⟩ := last.continued (.inl rfl) 0 rfl
    revert member
    have gone : ((new.step letters (.add (ascii "a") [] 0)).step letters
        (.remove (ascii "a"))).header.headers.entries = [] := by
      decide +kernel
    rw [gone]
    exact List.not_mem_nil

end ConfiguredHeader

end Mantids.MIME
