import Mathlib

/-! The words of a command line by the quoting rules of the POSIX shell. -/

set_option autoImplicit false

namespace Library.Shell

abbrev singleQuote : UInt8 := 39

abbrev doubleQuote : UInt8 := 34

abbrev backslash : UInt8 := 92

/-- Where a scan is; `word` is what has been read of a word, `none` between words. -/
inductive Mode where
  | plain (word : Option (List UInt8))
  | single (word : List UInt8)
  | double (word : List UInt8)
  | escaped (word : Option (List UInt8))
  | escapedDouble (word : List UInt8)
  deriving DecidableEq

def isBlank (byte : UInt8) : Bool := byte = 32 || byte = 9

/-- An operator, a line break, or the beginning of an expansion: a dollar, a grave accent or a pattern. -/
def isActive (byte : UInt8) : Bool :=
  byte = 124 || byte = 38 || byte = 59 || byte = 60 || byte = 62 || byte = 40 || byte = 41 || byte = 10 ||
    byte = 36 || byte = 96 || byte = 42 || byte = 63 || byte = 91

/-- A comment or the name of a home, where a word begins. -/
def isActiveFirst (byte : UInt8) : Bool := byte = 35 || byte = 126

/-- One byte: a word that ends with it and the next mode, or nothing where the shell would do more than read. -/
def step : Mode → UInt8 → Option (Option (List UInt8) × Mode)
  | .plain word, byte =>
    if isBlank byte then some (word, .plain none)
    else if byte = singleQuote then some (none, .single (word.getD []))
    else if byte = doubleQuote then some (none, .double (word.getD []))
    else if byte = backslash then some (none, .escaped word)
    else if isActive byte || (word.isNone && isActiveFirst byte) then none
    else some (none, .plain (some (word.getD [] ++ [byte])))
  | .single word, byte =>
    if byte = singleQuote then some (none, .plain (some word)) else some (none, .single (word ++ [byte]))
  | .double word, byte =>
    if byte = doubleQuote then some (none, .plain (some word))
    else if byte = backslash then some (none, .escapedDouble word)
    else if byte = 36 || byte = 96 then none
    else some (none, .double (word ++ [byte]))
  | .escaped word, byte =>
    -- a line goes on behind a backslash
    if byte = 10 then some (none, .plain word) else some (none, .plain (some (word.getD [] ++ [byte])))
  | .escapedDouble word, byte =>
    if byte = 10 then some (none, .double word)
    else if byte = 36 || byte = 96 || byte = doubleQuote || byte = backslash then some (none, .double (word ++ [byte]))
    else some (none, .double (word ++ [backslash, byte]))

/-- From a mode on; nothing where a quotation does not end. -/
def scan : Mode → List UInt8 → Option (List (List UInt8))
  | .plain word, [] => some word.toList
  | _, [] => none
  | mode, byte :: rest =>
    (step mode byte).bind fun (ended, next) => (scan next rest).map (ended.toList ++ ·)

/-- The words of a line that the shell only reads. -/
def words (line : List UInt8) : Option (List (List UInt8)) := scan (.plain none) line

namespace Mode

/-- What has been read of the word. -/
def current : Mode → List UInt8
  | plain word => word.getD []
  | single word => word
  | double word => word
  | escaped word => word.getD []
  | escapedDouble word => word

end Mode

theorem scan_cons {mode next : Mode} {byte : UInt8} {ended : Option (List UInt8)}
    (here : step mode byte = some (ended, next)) (rest : List UInt8) :
    scan mode (byte :: rest) = (scan next rest).map (ended.toList ++ ·) := by
  rw [scan, here]
  rfl

/-! ## What is lost on the way -/

/-- A sign of quotation that may still be written: a backslash between double quotation marks. -/
def Mode.held (sign : UInt8) : Mode → Nat
  | escapedDouble _ => if sign = backslash then 1 else 0
  | _ => 0

theorem count_step_le {mode next : Mode} {byte : UInt8} {ended : Option (List UInt8)} (sign : UInt8)
    (here : step mode byte = some (ended, next)) :
    (ended.getD []).count sign + next.current.count sign + next.held sign ≤
      mode.current.count sign + mode.held sign + [byte].count sign := by
  cases mode with
  | plain word =>
    simp only [step] at here
    split at here
    case isTrue =>
      cases here
      simp [Mode.current, Mode.held]
    split at here
    case isTrue =>
      cases here
      simp [Mode.current, Mode.held]
    split at here
    case isTrue =>
      cases here
      simp [Mode.current, Mode.held]
    split at here
    case isTrue =>
      cases here
      simp [Mode.current, Mode.held]
    split at here
    case isTrue => cases here
    case isFalse =>
      cases here
      simp [Mode.current, Mode.held]
  | single word =>
    simp only [step] at here
    split at here
    case isTrue =>
      cases here
      simp [Mode.current, Mode.held]
    case isFalse =>
      cases here
      simp [Mode.current, Mode.held]
  | double word =>
    simp only [step] at here
    split at here
    case isTrue =>
      cases here
      simp [Mode.current, Mode.held]
    split at here
    case isTrue escape =>
      cases here
      simp only [Mode.current, Mode.held, escape, Option.getD_none, List.count_nil, List.count_singleton]
      by_cases same : sign = backslash
      · simp [same]
      · simp [same]
    split at here
    case isTrue => cases here
    case isFalse =>
      cases here
      simp [Mode.current, Mode.held]
  | escaped word =>
    simp only [step] at here
    split at here
    case isTrue =>
      cases here
      simp [Mode.current, Mode.held]
    case isFalse =>
      cases here
      simp [Mode.current, Mode.held]
  | escapedDouble word =>
    simp only [step] at here
    split at here
    case isTrue =>
      cases here
      simp only [Mode.current, Mode.held, Option.getD_none, List.count_nil]
      omega
    split at here
    case isTrue =>
      cases here
      simp only [Mode.current, Mode.held, Option.getD_none, List.count_nil, List.count_append]
      omega
    case isFalse =>
      cases here
      have pair : [backslash, byte].count sign = [backslash].count sign + [byte].count sign := by
        rw [← List.count_append]
        rfl
      have held : [backslash].count sign = if sign = backslash then 1 else 0 := by
        rw [List.count_singleton]
        by_cases same : sign = backslash
        · simp [same]
        · simp [same, Ne.symm same]
      simp only [Mode.current, Mode.held, Option.getD_none, List.count_nil, List.count_append]
      omega

theorem scan_cases {mode : Mode} {byte : UInt8} {rest : List UInt8} {result : List (List UInt8)}
    (read : scan mode (byte :: rest) = some result) :
    ∃ ended next later, step mode byte = some (ended, next) ∧ scan next rest = some later ∧
      result = ended.toList ++ later := by
  rw [scan] at read
  obtain ⟨⟨ended, next⟩, here, behind⟩ := Option.bind_eq_some_iff.mp read
  obtain ⟨later, found, rfl⟩ := Option.map_eq_some_iff.mp behind
  exact ⟨ended, next, later, here, found, rfl⟩

/-- No sign comes out more often than it went in. -/
theorem count_scan_le {mode : Mode} {text : List UInt8} {result : List (List UInt8)} (sign : UInt8)
    (read : scan mode text = some result) :
    result.flatten.count sign ≤ mode.current.count sign + mode.held sign + text.count sign := by
  induction text generalizing mode result with
  | nil =>
    cases mode with
    | plain word =>
      cases read
      cases word with
      | none => simp
      | some word => simp [Mode.current]
    | single word => cases read
    | double word => cases read
    | escaped word => cases read
    | escapedDouble word => cases read
  | cons byte rest ih =>
    obtain ⟨ended, next, later, here, found, rfl⟩ := scan_cases read
    have first := count_step_le sign here
    have behind := ih found
    have word : ended.toList.flatten.count sign = (ended.getD []).count sign := by
      cases ended with
      | none => rfl
      | some word => simp
    rw [List.flatten_append, List.count_append, word, ← List.singleton_append, List.count_append]
    omega

/-! ## Where nothing is lost -/

/-- The signs that are read are all written again. -/
structure Kept (mode : Mode) (text : List UInt8) (result : List (List UInt8)) : Prop where
  doubles : result.flatten.count doubleQuote = mode.current.count doubleQuote + text.count doubleQuote
  backslashes : result.flatten.count backslash = mode.current.count backslash + text.count backslash

/-- A byte that is read as itself without quotation marks. -/
def isOrdinary (byte : UInt8) : Bool :=
  !(isBlank byte || byte = singleQuote || byte = doubleQuote || byte = backslash || isActive byte)

section
variable {word : Option (List UInt8)} {byte : UInt8} {rest : List UInt8} {result : List (List UInt8)}

/-- Without quotation marks that are lost, a byte ends a word, opens a quotation, or is read as itself. -/
theorem plain_cases (read : scan (.plain word) (byte :: rest) = some result) (kept : Kept (.plain word) (byte :: rest) result) :
    (isBlank byte = true ∧ ∃ later, scan (.plain none) rest = some later ∧ result = word.toList ++ later) ∨
      (byte = singleQuote ∧ scan (.single (word.getD [])) rest = some result) ∨
        (isOrdinary byte = true ∧ scan (.plain (some (word.getD [] ++ [byte]))) rest = some result) := by
  obtain ⟨ended, next, later, here, found, rfl⟩ := scan_cases read
  simp only [step] at here
  split at here
  case isTrue blank =>
    cases here
    exact .inl ⟨blank, later, found, rfl⟩
  case isFalse notBlank =>
    split at here
    case isTrue quote =>
      cases here
      exact .inr (.inl ⟨quote, found⟩)
    case isFalse notSingle =>
      split at here
      case isTrue double =>
        -- a double quotation mark is not written again
        cases here
        have most := count_scan_le doubleQuote found
        have all := kept.doubles
        rw [double, List.count_cons_self] at all
        simp only [Mode.current, Mode.held, Option.toList_none, List.nil_append] at most all
        omega
      case isFalse notDouble =>
        split at here
        case isTrue escape =>
          cases here
          have most := count_scan_le backslash found
          have all := kept.backslashes
          rw [escape, List.count_cons_self] at all
          simp only [Mode.current, Mode.held, Option.toList_none, List.nil_append] at most all
          omega
        case isFalse notEscape =>
          split at here
          case isTrue => cases here
          case isFalse passive =>
            cases here
            have notActive : ¬isActive byte = true := by
              intro active
              simp [active] at passive
            refine .inr (.inr ⟨?_, found⟩)
            simp [isOrdinary, notBlank, notSingle, notDouble, notEscape, notActive]

theorem Kept.goOn {mode next : Mode} (kept : Kept mode (byte :: rest) result)
    (same : ∀ sign, sign ≠ singleQuote → next.current.count sign = mode.current.count sign + [byte].count sign) :
    Kept next rest result := by
  have parts : ∀ sign, (byte :: rest).count sign = [byte].count sign + rest.count sign := by
    intro sign
    rw [← List.count_append]
    rfl
  constructor
  case doubles =>
    have all := kept.doubles
    rw [parts] at all
    rw [same _ (by decide), all, Nat.add_assoc]
  case backslashes =>
    have all := kept.backslashes
    rw [parts] at all
    rw [same _ (by decide), all, Nat.add_assoc]

theorem Kept.blank (kept : Kept (.plain word) (byte :: rest) (word.toList ++ result)) (blank : isBlank byte = true) :
    Kept (.plain none) rest result := by
  have other : byte ≠ doubleQuote ∧ byte ≠ backslash := by
    constructor
    case left =>
      rintro rfl
      exact absurd blank (by decide)
    case right =>
      rintro rfl
      exact absurd blank (by decide)
  have flat : ∀ sign, (word.toList ++ result).flatten.count sign = (word.getD []).count sign + result.flatten.count sign := by
    intro sign
    cases word with
    | none => simp
    | some word => simp
  constructor
  case doubles =>
    have all := kept.doubles
    rw [flat, List.count_cons_of_ne other.1] at all
    simp only [Mode.current, Option.getD_none, List.count_nil] at all ⊢
    omega
  case backslashes =>
    have all := kept.backslashes
    rw [flat, List.count_cons_of_ne other.2] at all
    simp only [Mode.current, Option.getD_none, List.count_nil] at all ⊢
    omega

end

/-- Where the other signs are kept, no single quotation mark is written. -/
theorem count_singleQuote (text : List UInt8) :
    (∀ word result, scan (.plain word) text = some result → Kept (.plain word) text result →
      result.flatten.count singleQuote = (word.getD []).count singleQuote) ∧
    ∀ word result, scan (.single word) text = some result → Kept (.single word) text result →
      result.flatten.count singleQuote = word.count singleQuote := by
  induction text with
  | nil =>
    constructor
    · intro word result read _
      cases read
      cases word with
      | none => rfl
      | some word => simp
    · intro word result read _
      cases read
  | cons byte rest ih =>
    constructor
    · intro word result read kept
      rcases plain_cases read kept with ⟨blank, later, found, rfl⟩ | ⟨quote, found⟩ | ⟨ordinary, found⟩
      · have behind := ih.1 none later found (kept.blank blank)
        cases word with
        | none => simpa using behind
        | some word => simpa using behind
      · rw [quote] at kept
        apply ih.2 _ _ found
        apply kept.goOn
        intro sign other
        simp [Mode.current, Ne.symm other]
      · have notSingle : byte ≠ singleQuote := by
          rintro rfl
          exact absurd ordinary (by decide)
        have behind := ih.1 _ _ found (kept.goOn fun sign _ => by simp [Mode.current])
        rw [behind, Option.getD_some, List.count_append, List.count_singleton]
        simp [notSingle]
    · intro word result read kept
      obtain ⟨ended, next, later, here, found, rfl⟩ := scan_cases read
      simp only [step] at here
      split at here
      case isTrue quote =>
        cases here
        rw [quote] at kept
        refine ih.1 _ _ found (kept.goOn ?_)
        intro sign other
        simp [Mode.current, Ne.symm other]
      case isFalse notSingle =>
        cases here
        have behind := ih.2 _ _ found (kept.goOn fun sign _ => by simp [Mode.current])
        rw [Option.toList_none, List.nil_append, behind, List.count_append, List.count_singleton]
        simp [notSingle]

/-! ## What is read as itself -/

theorem scan_ordinary {text : List UInt8} (ordinary : ∀ byte ∈ text, isOrdinary byte = true) (word rest : List UInt8) :
    scan (.plain (some word)) (text ++ rest) = scan (.plain (some (word ++ text))) rest := by
  induction text generalizing word with
  | nil => rw [List.nil_append, List.append_nil]
  | cons byte text ih =>
    have here : step (.plain (some word)) byte = some (none, .plain (some (word ++ [byte]))) := by
      have kind := ordinary byte List.mem_cons_self
      simp only [isOrdinary, Bool.not_eq_true', Bool.or_eq_false_iff, decide_eq_false_iff_not] at kind
      simp [step, kind]
    have later := ih (fun other member => ordinary other (.tail _ member)) (word ++ [byte])
    rw [List.cons_append, scan_cons here, later, List.append_assoc]
    simp

theorem scan_single {text : List UInt8} (plain : singleQuote ∉ text) (word rest : List UInt8) :
    scan (.single word) (text ++ singleQuote :: rest) = scan (.plain (some (word ++ text))) rest := by
  induction text generalizing word with
  | nil =>
    have here : step (.single word) singleQuote = some (none, .plain (some word)) := by simp [step]
    rw [List.nil_append, scan_cons here, List.append_nil]
    simp
  | cons byte text ih =>
    rw [List.mem_cons, not_or] at plain
    have here : step (.single word) byte = some (none, .single (word ++ [byte])) := by
      rw [step, if_neg (Ne.symm plain.1)]
    rw [List.cons_append, scan_cons here, ih plain.2, List.append_assoc]
    simp

/-- A text that comes out in the first word, behind what was there, has only bytes that are read as themselves. -/
theorem ordinary_of_scan {text word more first : List UInt8} {later : List (List UInt8)} (plain : singleQuote ∉ text)
    (read : scan (.plain (some word)) (text ++ more) = some (first :: later))
    (kept : Kept (.plain (some word)) (text ++ more) (first :: later)) (long : (word ++ text).length < first.length) :
    ∀ byte ∈ text, isOrdinary byte = true := by
  induction text generalizing word with
  | nil => exact fun byte member => absurd member List.not_mem_nil
  | cons byte text ih =>
    rw [List.mem_cons, not_or] at plain
    rcases plain_cases read kept with ⟨blank, rest, found, same⟩ | ⟨quote, found⟩ | ⟨ordinary, found⟩
    · have cut : first = word := (List.cons.inj same).1
      rw [cut, List.length_append] at long
      omega
    · exact absurd quote.symm plain.1
    · have behind : Kept (.plain (some (word ++ [byte]))) (text ++ more) (first :: later) :=
        kept.goOn fun sign _ => by simp [Mode.current]
      refine List.forall_mem_cons.mpr ⟨ordinary, ih plain.2 found behind ?_⟩
      rwa [List.append_assoc]

end Library.Shell
