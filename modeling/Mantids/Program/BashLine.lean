import Mantids.Library.Replacement
import Mantids.Library.ShellWords
import Mantids.Protocols.MimeMessage

/-! The options of a program as one line for the shell (`getCurrentProgramOptionsValuesAsBashLine` of
`globalarguments.cpp`). -/

set_option autoImplicit false

namespace Mantids.Program

open Library Library.Shell Memory MIME

/-! ## The line -/

/-- Of the values their texts. -/
structure ProgCMDOpts where
  name : Bytes
  optChar : Int
  parsedOption : List Bytes
  defaultValueVar : Bytes

namespace ProgCMDOpts

/-- The character of an option without a name. -/
def varNameToPrint (v : ProgCMDOpts) : Bytes :=
  if 0 < v.optChar ∧ v.optChar < 256 ∧ v.name = [] then [UInt8.ofNat v.optChar.toNat] else v.name

/-- The default where no value was given. -/
def values (v : ProgCMDOpts) : List Bytes := if v.parsedOption = [] then [v.defaultValueVar] else v.parsedOption

def isInstall (v : ProgCMDOpts) : Bool :=
  v.varNameToPrint = ascii "install" || v.varNameToPrint = ascii "reinstall" || v.varNameToPrint = ascii "uninstall"

/-- In the literal `"'\''"` the second quotation mark is escaped for the compiler only. -/
def escaped (value : Bytes) : Bytes := replaceAll [singleQuote] [singleQuote, singleQuote, singleQuote] value

/-- One value behind what is in the line. -/
def put (v : ProgCMDOpts) (r value : Bytes) : Bytes :=
  r ++ (if r = [] then [] else ascii " ") ++ ascii "--" ++ v.varNameToPrint ++ ascii "='" ++ escaped value ++ ascii "'"

end ProgCMDOpts

/-- The groups of options in the order of their names. -/
structure GlobalArguments where
  cmdOptions : List (Bytes × List ProgCMDOpts)

namespace GlobalArguments

section
variable (arguments : GlobalArguments) (removeInstall : Bool)

/-- The options that are written. -/
def written : List ProgCMDOpts :=
  (arguments.cmdOptions.flatMap (·.2)).filter fun v => !(removeInstall && v.isInstall)

def getCurrentProgramOptionsValuesAsBashLine : Bytes :=
  (arguments.written removeInstall).foldl (fun r v => v.values.foldl v.put r) []

/-- Each option that is written with each of its values. -/
def settings : List (Bytes × Bytes) :=
  (arguments.written removeInstall).flatMap fun v => v.values.map fun value => (v.varNameToPrint, value)

/-- The shell reads a word for each of them, and does nothing else. -/
def Safe : Prop :=
  Shell.words (arguments.getCurrentProgramOptionsValuesAsBashLine removeInstall) =
    some ((arguments.settings removeInstall).map fun setting => ascii "--" ++ setting.1 ++ ascii "=" ++ setting.2)

end

end GlobalArguments

/-! ## The settings one after the other -/

section
variable {settings : List (Bytes × Bytes)}

/-- What is written for a setting. -/
def line (setting : Bytes × Bytes) : Bytes :=
  ascii "--" ++ setting.1 ++ ascii "='" ++ ProgCMDOpts.escaped setting.2 ++ ascii "'"

def word (setting : Bytes × Bytes) : Bytes := ascii "--" ++ setting.1 ++ ascii "=" ++ setting.2

def lines : List (Bytes × Bytes) → Bytes
  | [] => []
  | [setting] => line setting
  | setting :: other :: rest => line setting ++ 32 :: lines (other :: rest)

theorem lines_concat (settings : List (Bytes × Bytes)) (setting : Bytes × Bytes) :
    lines (settings ++ [setting]) = lines settings ++ (if settings = [] then [] else [32]) ++ line setting := by
  induction settings with
  | nil => rfl
  | cons first rest ih =>
    cases rest with
    | nil => simp [lines]
    | cons second rest =>
      rw [List.cons_append, List.cons_append, lines, ← List.cons_append, ih, lines]
      simp

theorem lines_eq_nil : lines settings = [] ↔ settings = [] := by
  cases settings with
  | nil => simp [lines]
  | cons first rest =>
    cases rest with
    | nil => simp [lines, line, ascii]
    | cons second rest => simp [lines, line, ascii]

theorem foldl_put (v : ProgCMDOpts) (values : List Bytes) (settings : List (Bytes × Bytes)) :
    values.foldl v.put (lines settings) = lines (settings ++ values.map fun value => (v.varNameToPrint, value)) := by
  induction values generalizing settings with
  | nil => rw [List.foldl_nil, List.map_nil, List.append_nil]
  | cons value rest ih =>
    have here : v.put (lines settings) value = lines (settings ++ [(v.varNameToPrint, value)]) := by
      rw [lines_concat, ProgCMDOpts.put]
      simp only [lines_eq_nil, line, List.append_assoc]
      rfl
    rw [List.foldl_cons, here, ih, List.append_assoc]
    rfl

theorem bashLine_eq (arguments : GlobalArguments) (removeInstall : Bool) :
    arguments.getCurrentProgramOptionsValuesAsBashLine removeInstall = lines (arguments.settings removeInstall) := by
  have each : ∀ options : List ProgCMDOpts, ∀ settings,
      options.foldl (fun r v => v.values.foldl v.put r) (lines settings) =
        lines (settings ++ options.flatMap fun v => v.values.map fun value => (v.varNameToPrint, value)) := by
    intro options
    induction options with
    | nil =>
      intro settings
      rw [List.foldl_nil, List.flatMap_nil, List.append_nil]
    | cons v rest ih =>
      intro settings
      rw [List.foldl_cons, foldl_put, ih, List.flatMap_cons, List.append_assoc]
  exact each _ []

/-! ## What the shell reads -/

theorem escaped_cons (byte : UInt8) (value : Bytes) : ProgCMDOpts.escaped (byte :: value) =
    (if byte = singleQuote then [singleQuote, singleQuote, singleQuote] else [byte]) ++ ProgCMDOpts.escaped value := by
  unfold ProgCMDOpts.escaped
  split
  case isTrue quote =>
    rw [quote]
    exact replaceAll_occurrence (List.cons_ne_nil _ _) value
  case isFalse other =>
    have absent : ¬[singleQuote] <+: byte :: value := fun here => other (List.cons_prefix_cons.mp here).1.symm
    rw [replaceAll_other absent]
    rfl

theorem count_escaped {sign : UInt8} (other : sign ≠ singleQuote) (value : Bytes) :
    (ProgCMDOpts.escaped value).count sign = value.count sign := by
  induction value with
  | nil => rfl
  | cons byte rest ih =>
    have parts : (byte :: rest).count sign = [byte].count sign + rest.count sign := by
      rw [← List.count_append]
      rfl
    rw [escaped_cons, List.count_append, ih, parts]
    split
    case isTrue quote => simp [quote, Ne.symm other]
    case isFalse => rfl

theorem escaped_plain {value : Bytes} (plain : singleQuote ∉ value) : ProgCMDOpts.escaped value = value :=
  replaceAll_absent plain

theorem count_lines {sign : UInt8} (other : sign ≠ singleQuote) (solid : sign ≠ 32) (settings : List (Bytes × Bytes)) :
    (lines settings).count sign = (settings.map word).flatten.count sign := by
  have here : ∀ setting, (line setting).count sign = (word setting).count sign := by
    intro setting
    have ends : ascii "='" = ascii "=" ++ [singleQuote] := rfl
    have quote : [singleQuote].count sign = 0 := by simp [Ne.symm other]
    have last : ascii "'" = [singleQuote] := rfl
    rw [line, word, ends, last]
    simp only [List.count_append, count_escaped other, quote, Nat.add_zero]
  induction settings with
  | nil => rfl
  | cons first rest ih =>
    rw [List.map_cons, List.flatten_cons, List.count_append, ← here]
    cases rest with
    | nil => simp [lines]
    | cons second rest => rw [lines, List.count_append, List.count_cons_of_ne (Ne.symm solid), ih]

/-- Double quotation marks and backslashes are not lost where the shell reads the settings. -/
theorem kept_lines (settings : List (Bytes × Bytes)) : Kept (.plain none) (lines settings) (settings.map word) := by
  constructor
  case doubles =>
    rw [← count_lines (by decide) (by decide)]
    simp [Mode.current]
  case backslashes =>
    rw [← count_lines (by decide) (by decide)]
    simp [Mode.current]

theorem scan_line {setting : Bytes × Bytes} (name : ∀ byte ∈ setting.1, isOrdinary byte = true)
    (value : singleQuote ∉ setting.2) (rest : Bytes) :
    scan (.plain none) (line setting ++ rest) = scan (.plain (some (word setting))) rest := by
  have shape : line setting ++ rest =
      45 :: ((45 :: (setting.1 ++ [61])) ++ singleQuote :: (setting.2 ++ singleQuote :: rest)) := by
    simp [line, escaped_plain value, ascii]
  have first : step (.plain none) 45 = some (none, .plain (some [45])) := by decide
  have opens : step (.plain (some ([45] ++ (45 :: (setting.1 ++ [61]))))) singleQuote =
      some (none, .single ([45] ++ (45 :: (setting.1 ++ [61])))) := by
    rw [step, if_neg (by decide), if_pos rfl]
    rfl
  have ordinary : ∀ byte ∈ 45 :: (setting.1 ++ [61]), isOrdinary byte = true := by
    intro byte member
    simp only [List.mem_cons, List.mem_append, List.not_mem_nil, or_false] at member
    rcases member with rfl | inside | rfl
    · decide
    · exact name byte inside
    · decide
  rw [shape, scan_cons first, scan_ordinary ordinary, scan_cons opens, scan_single value]
  simp [word, ascii]

/-- What is in front of a word is one more word. -/
theorem scan_lines {first : Bytes × Bytes} (name : ∀ byte ∈ first.1, isOrdinary byte = true)
    (value : singleQuote ∉ first.2) (rest : List (Bytes × Bytes)) :
    scan (.plain none) (lines (first :: rest)) = (scan (.plain none) (lines rest)).map (word first :: ·) := by
  cases rest with
  | nil =>
    have whole := scan_line name value []
    rw [List.append_nil] at whole
    rw [show lines [first] = line first from rfl, whole]
    rfl
  | cons second rest =>
    have blank : step (.plain (some (word first))) 32 = some (some (word first), .plain none) := by simp [step, isBlank]
    rw [lines, scan_line name value, scan_cons blank]
    rfl

theorem ordinary_of_lines {first : Bytes × Bytes} {rest : List (Bytes × Bytes)} (plain : singleQuote ∉ first.1)
    (read : scan (.plain none) (lines (first :: rest)) = some ((first :: rest).map word)) :
    ∀ byte ∈ first.1, isOrdinary byte = true := by
  obtain ⟨more, shape⟩ : ∃ more, lines (first :: rest) = 45 :: 45 :: (first.1 ++ more) := by
    cases rest with
    | nil => exact ⟨_, by simp [lines, line, ascii]; rfl⟩
    | cons second rest => exact ⟨_, by simp [lines, line, ascii]; rfl⟩
  have kept := kept_lines (first :: rest)
  have dash : ∀ word, step (.plain word) 45 = some (none, .plain (some (word.getD [] ++ [45]))) := by
    intro word
    cases word with
    | none => decide
    | some word => rfl
  rw [shape] at kept read
  rw [scan_cons (dash _), scan_cons (dash _)] at read
  simp only [Option.toList_none, List.nil_append, Option.map_id_fun', id, Option.getD_none, Option.getD_some] at read
  have behind : Kept (.plain (some [45])) (45 :: (first.1 ++ more)) ((first :: rest).map word) :=
    kept.goOn fun sign _ => by simp [Mode.current]
  have inside : Kept (.plain (some [45, 45])) (first.1 ++ more) ((first :: rest).map word) :=
    behind.goOn fun sign _ => by
      simp only [Mode.current, Option.getD_some]
      rw [← List.count_append]
      rfl
  apply ordinary_of_scan plain read inside
  simp [word, ascii]

theorem words_lines (settings : List (Bytes × Bytes)) : Shell.words (lines settings) = some (settings.map word) ↔
    ∀ setting ∈ settings, (∀ byte ∈ setting.1, isOrdinary byte = true) ∧ singleQuote ∉ setting.2 := by
  unfold Shell.words
  constructor
  · intro read
    have none : (settings.map word).flatten.count singleQuote = 0 :=
      (count_singleQuote (lines settings)).1 none _ read (kept_lines settings)
    induction settings with
    | nil => exact fun setting member => absurd member List.not_mem_nil
    | cons first rest ih =>
      rw [List.map_cons, List.flatten_cons, List.count_append] at none
      have plain : singleQuote ∉ word first := List.count_eq_zero.mp (by omega)
      simp only [word, List.mem_append, not_or] at plain
      have name := ordinary_of_lines plain.1.1.2 read
      rw [scan_lines name plain.2] at read
      obtain ⟨later, found, same⟩ := Option.map_eq_some_iff.mp read
      rw [(List.cons.inj same).2] at found
      exact List.forall_mem_cons.mpr ⟨⟨name, plain.2⟩, ih found (by omega)⟩
  · intro all
    induction settings with
    | nil => rfl
    | cons first rest ih =>
      obtain ⟨⟨name, value⟩, later⟩ := List.forall_mem_cons.mp all
      rw [scan_lines name value, ih later]
      rfl

end

/-- The line is safe exactly where no value has a single quotation mark, and every name is read as itself without any. -/
theorem safe_iff (arguments : GlobalArguments) (removeInstall : Bool) : arguments.Safe removeInstall ↔
    ∀ setting ∈ arguments.settings removeInstall,
      (∀ byte ∈ setting.1, isOrdinary byte = true) ∧ singleQuote ∉ setting.2 := by
  unfold GlobalArguments.Safe
  rw [bashLine_eq]
  exact words_lines _

/-- The value `';id;'` of the option `x`. -/
def runsCommand : GlobalArguments := ⟨[(ascii "", [⟨ascii "x", 120, [ascii "';id;'"], ascii ""⟩])]⟩

theorem runsCommand_unsafe : runsCommand.getCurrentProgramOptionsValuesAsBashLine false = ascii "--x='''';id;''''" ∧
    ¬runsCommand.Safe false := by
  constructor
  · decide +kernel
  · unfold GlobalArguments.Safe
    decide +kernel

end Mantids.Program
