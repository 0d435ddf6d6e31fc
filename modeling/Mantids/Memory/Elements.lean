import Mantids.Memory.Parser

/-! What a protocol reads from a stream, whatever the writes it arrives in: its elements
one after the other, each ended by the delimiter that is complete first. -/

set_option autoImplicit false

namespace Mantids.Memory.Streams

/-- What `parse()` is called on, with the bytes of the stream it takes. -/
structure Element where
  parsedBuffer : Bytes
  delimiterFound : Option Bytes
  length : Nat
  deriving DecidableEq, Repr

def Element.presented (element : Element) : Presented := .element element.parsedBuffer element.delimiterFound

def Found.element (found : Found) (stream : Bytes) : Element :=
  ⟨stream.take found.pos, found.delimiterFound, found.pos + found.length⟩

/-- The modes that wait for a whole element. -/
def ParseMode.Buffers : ParseMode → Prop
  | .delimiter | .multiDelimiter | .size => True
  | _ => False

namespace Settings

/-- The delimiter that is complete first. Two occurrences come in the same order at
their ends as at their starts, unless one lies in the other. -/
def firstDelimiter (settings : Settings) (stream : Bytes) : Option Found :=
  match settings.parseMode with
  | .delimiter =>
    (Library.occurrence settings.parseDelimiter stream).map fun pos => ⟨pos, settings.parseDelimiter.length, none⟩
  | .multiDelimiter =>
    (Library.earliest settings.parseMultiDelimiter stream).map fun (pos, delimiterFound) =>
      ⟨pos, delimiterFound.length, some delimiterFound⟩
  | _ => none

def firstElement (settings : Settings) (stream : Bytes) : Option Element :=
  let target := settings.parseDataTargetSize
  match settings.parseMode with
  | .size => if stream ≠ [] ∧ target ≤ stream.length then some ⟨stream.take target, none, target⟩ else none
  | _ => (settings.firstDelimiter (stream.take target)).map fun found => found.element stream

section
variable {settings : Settings} {stream : Bytes}

theorem firstElement_size (mode : settings.parseMode = .size) : settings.firstElement stream =
    if stream ≠ [] ∧ settings.parseDataTargetSize ≤ stream.length then
      some ⟨stream.take settings.parseDataTargetSize, none, settings.parseDataTargetSize⟩ else none := by
  simp only [firstElement, mode]

theorem firstElement_delimiter (mode : settings.parseMode ≠ .size) : settings.firstElement stream =
    (settings.firstDelimiter (stream.take settings.parseDataTargetSize)).map fun found => found.element stream := by
  unfold firstElement
  split
  · contradiction
  · rfl

theorem firstDelimiter_append {later : Bytes} {found : Found} (here : settings.firstDelimiter stream = some found) :
    settings.firstDelimiter (stream ++ later) = some found := by
  cases mode : settings.parseMode with
  | delimiter =>
    simp only [firstDelimiter, mode] at here ⊢
    obtain ⟨pos, occurs, rfl⟩ := Option.map_eq_some_iff.mp here
    rw [Library.occurrence_append occurs, Option.map_some]
  | multiDelimiter =>
    simp only [firstDelimiter, mode] at here ⊢
    obtain ⟨⟨pos, delimiter⟩, first, rfl⟩ := Option.map_eq_some_iff.mp here
    rw [Library.earliest_append first, Option.map_some]
  | _ => simp [firstDelimiter, mode] at here

theorem firstDelimiter_end_le {found : Found} (here : settings.firstDelimiter stream = some found) :
    found.pos + found.length ≤ stream.length := by
  cases mode : settings.parseMode with
  | delimiter =>
    simp only [firstDelimiter, mode] at here
    obtain ⟨pos, occurs, rfl⟩ := Option.map_eq_some_iff.mp here
    exact Library.occurrence_end_le occurs
  | multiDelimiter =>
    simp only [firstDelimiter, mode] at here
    obtain ⟨⟨pos, delimiter⟩, first, rfl⟩ := Option.map_eq_some_iff.mp here
    exact Library.occurrence_end_le (Library.occurrence_of_earliest first).2
  | _ => simp [firstDelimiter, mode] at here

theorem le_end_of_firstDelimiter {found : Found} {n : Nat} (here : settings.firstDelimiter stream = some found)
    (missing : settings.firstDelimiter (stream.take n) = none) : n ≤ found.pos + found.length := by
  cases mode : settings.parseMode with
  | delimiter =>
    simp only [firstDelimiter, mode] at here missing
    obtain ⟨pos, occurs, rfl⟩ := Option.map_eq_some_iff.mp here
    exact Library.le_end_of_occurrence occurs (Option.map_eq_none_iff.mp missing)
  | multiDelimiter =>
    simp only [firstDelimiter, mode] at here missing
    obtain ⟨⟨pos, delimiter⟩, first, rfl⟩ := Option.map_eq_some_iff.mp here
    rw [Option.map_eq_none_iff, Library.earliest_eq_none_iff] at missing
    exact Library.le_end_of_earliest first missing
  | _ => simp [firstDelimiter, mode] at here

@[simp] theorem firstElement_nil : settings.firstElement [] = none := by
  cases mode : settings.parseMode <;>
    simp [firstElement, firstDelimiter, mode, Library.occurrence, Library.earliest_eq_none_iff,
      Library.firstListed_eq_none_iff]

theorem firstElement_length_le {element : Element} (first : settings.firstElement stream = some element) :
    element.length ≤ stream.length ∧ element.length ≤ settings.parseDataTargetSize := by
  by_cases mode : settings.parseMode = .size
  · rw [firstElement_size mode, Option.ite_none_right_eq_some] at first
    obtain ⟨⟨-, long⟩, same⟩ := first
    cases same
    exact ⟨long, Nat.le_refl _⟩
  · rw [firstElement_delimiter mode] at first
    obtain ⟨found, here, rfl⟩ := Option.map_eq_some_iff.mp first
    have fits := firstDelimiter_end_le here
    rw [List.length_take] at fits
    exact ⟨by simp only [Found.element]; omega, by simp only [Found.element]; omega⟩

theorem firstElement_append {element : Element} (first : settings.firstElement stream = some element)
    (later : Bytes) : settings.firstElement (stream ++ later) = some element := by
  by_cases mode : settings.parseMode = .size
  · rw [firstElement_size mode, Option.ite_none_right_eq_some] at first
    obtain ⟨⟨filled, long⟩, same⟩ := first
    rw [firstElement_size mode, if_pos, ← same, List.take_append_of_le_length long]
    rw [List.length_append]
    exact ⟨List.append_ne_nil_of_left_ne_nil filled _, by omega⟩
  · rw [firstElement_delimiter mode] at first ⊢
    obtain ⟨found, here, same⟩ := Option.map_eq_some_iff.mp first
    have fits := firstDelimiter_end_le here
    rw [List.length_take] at fits
    have inside : found.pos ≤ stream.length := by omega
    rw [List.take_append, firstDelimiter_append here, ← same, Option.map_some, Found.element, Found.element,
      List.take_append_of_le_length inside]

theorem firstElement_of_append {later : Bytes} (missing : settings.firstElement (stream ++ later) = none) :
    settings.firstElement stream = none := by
  cases first : settings.firstElement stream with
  | none => rfl
  | some element =>
    rw [firstElement_append first later] at missing
    contradiction

/-- What a prefix does not complete ends after it. -/
theorem length_le_of_firstElement {later : Bytes} {element : Element}
    (missing : settings.firstElement stream = none) (first : settings.firstElement (stream ++ later) = some element) :
    stream.length ≤ element.length := by
  by_cases mode : settings.parseMode = .size
  · rw [firstElement_size mode] at missing first
    rw [Option.ite_none_right_eq_some] at first
    obtain ⟨-, same⟩ := first
    cases same
    by_contra less
    change ¬stream.length ≤ settings.parseDataTargetSize at less
    have filled : stream ≠ [] := by
      rintro rfl
      exact less (Nat.zero_le _)
    rw [if_pos ⟨filled, by omega⟩] at missing
    contradiction
  · rw [firstElement_delimiter mode] at missing first
    obtain ⟨found, here, rfl⟩ := Option.map_eq_some_iff.mp first
    rw [Option.map_eq_none_iff] at missing
    apply le_end_of_firstDelimiter here
    rwa [List.take_take, Nat.min_comm, ← List.take_take, List.take_left' rfl]

/-- Beyond the target size nothing completes. -/
theorem firstElement_of_long (missing : settings.firstElement stream = none)
    (long : settings.parseDataTargetSize < stream.length) (later : Bytes) :
    settings.firstElement (stream ++ later) = none := by
  by_cases mode : settings.parseMode = .size
  · rw [firstElement_size mode] at missing
    have filled : stream ≠ [] := List.ne_nil_of_length_pos (by omega)
    rw [if_pos ⟨filled, by omega⟩] at missing
    contradiction
  · rw [firstElement_delimiter mode, Option.map_eq_none_iff] at missing ⊢
    rwa [List.take_append_of_le_length (by omega)]

end

end Settings

theorem SubParser.settings_new (settings : Settings) : (SubParser.new settings).settings = settings := rfl

namespace Outcome
variable {σ : Type}

theorem after_nil (outcome : Outcome σ) (consumed : Nat) :
    outcome.after [] consumed = { outcome with consumed := consumed + outcome.consumed } := rfl

theorem after_after (outcome : Outcome σ) (first second : List Presented) (m n : Nat) :
    (outcome.after second n).after first m = outcome.after (first ++ second) (m + n) := by
  simp only [after, List.append_assoc, Nat.add_assoc]

theorem after_injective (presented : List Presented) (consumed : Nat) :
    Function.Injective fun outcome : Outcome σ => outcome.after presented consumed := by
  intro a b same
  cases a with | mk presentedA consumedA verdictA userA =>
    cases b with | mk presentedB consumedB verdictB userB =>
      simp only [after, mk.injEq, List.append_cancel_left_eq, Nat.add_left_cancel_iff] at same
      simp only [same]

end Outcome

section
variable {σ : Type}

/-- What becomes of the parser when `parse()` is called. -/
def Protocol.read (protocol : Protocol σ) (user : σ) (settings : Settings) (presented : Presented) :
    Verdict × Parser σ :=
  let (status, settings, user) := protocol.parse user settings presented
  protocol.turn status (.new settings) user

/-- What the stream amounts to on its own, read from `settings` on. -/
inductive Parses (protocol : Protocol σ) : σ → Settings → Bytes → Outcome σ → Prop where
  | waiting {user : σ} {settings : Settings} {stream : Bytes} (incomplete : settings.firstElement stream = none)
      (fits : stream.length ≤ settings.parseDataTargetSize) :
      Parses protocol user settings stream ⟨[], stream.length, .open, user⟩
  | tooLong {user : σ} {settings : Settings} {stream : Bytes} (incomplete : settings.firstElement stream = none)
      (long : settings.parseDataTargetSize < stream.length) :
      Parses protocol user settings stream ⟨[], settings.parseDataTargetSize, .failed, user⟩
  | last {user : σ} {settings : Settings} {stream : Bytes} {element : Element} {verdict : Verdict} {parser : Parser σ}
      (complete : settings.firstElement stream = some element)
      (stops : protocol.read user settings element.presented = (verdict, parser)) (ended : verdict ≠ .open) :
      Parses protocol user settings stream ⟨[element.presented], element.length, verdict, parser.user⟩
  | next {user user' : σ} {settings settings' : Settings} {stream : Bytes} {element : Element} {outcome : Outcome σ}
      (complete : settings.firstElement stream = some element)
      (goes : protocol.read user settings element.presented = (.open, ⟨some (.new settings'), user'⟩))
      (rest : Parses protocol user' settings' (stream.drop element.length) outcome) :
      Parses protocol user settings stream (outcome.after [element.presented] element.length)

/-- A parser that goes on has a sub parser with nothing read. -/
theorem turn_open {protocol : Protocol σ} {status : ParseStatus} {settings : Settings} {user : σ} {parser : Parser σ}
    (goes : protocol.turn status (.new settings) user = (.open, parser)) :
    ∃ settings', parser.currentParser = some (.new settings') ∧
      (settings' = settings ∨ protocol.changeToNextParser user = some (some settings', parser.user)) := by
  cases status with
  | error => cases goes
  | getMoreData =>
    cases goes
    exact ⟨settings, rfl, .inl rfl⟩
  | gotoNextSubParser =>
    cases change : protocol.changeToNextParser user with
    | none =>
      simp only [Protocol.turn, change] at goes
      cases goes
    | some changed =>
      obtain ⟨_ | settings', user'⟩ := changed
      · simp only [Protocol.turn, change] at goes
        cases goes
      · simp only [Protocol.turn, change] at goes
        cases goes
        exact ⟨settings', rfl, .inr rfl⟩

section
variable {protocol : Protocol σ} {user : σ} {settings : Settings} {stream : Bytes} {outcome : Outcome σ}

theorem parses_tooLong_iff (incomplete : settings.firstElement stream = none)
    (long : settings.parseDataTargetSize < stream.length) :
    Parses protocol user settings stream outcome ↔
      outcome = ⟨[], settings.parseDataTargetSize, .failed, user⟩ := by
  constructor
  · intro parses
    cases parses with
    | waiting _ fits => omega
    | tooLong _ _ => rfl
    | last complete _ _ => simp [incomplete] at complete
    | next complete _ _ => simp [incomplete] at complete
  · rintro rfl
    exact .tooLong incomplete long

theorem parses_waiting_iff (incomplete : settings.firstElement stream = none)
    (fits : stream.length ≤ settings.parseDataTargetSize) :
    Parses protocol user settings stream outcome ↔ outcome = ⟨[], stream.length, .open, user⟩ := by
  constructor
  · intro parses
    cases parses with
    | waiting _ _ => rfl
    | tooLong _ long => omega
    | last complete _ _ => simp [incomplete] at complete
    | next complete _ _ => simp [incomplete] at complete
  · rintro rfl
    exact .waiting incomplete fits

variable {element : Element} (complete : settings.firstElement stream = some element)
include complete

theorem parses_last_iff {verdict : Verdict} {parser : Parser σ}
    (stops : protocol.read user settings element.presented = (verdict, parser)) (ended : verdict ≠ .open) :
    Parses protocol user settings stream outcome ↔
      outcome = ⟨[element.presented], element.length, verdict, parser.user⟩ := by
  constructor
  · intro parses
    cases parses with
    | waiting incomplete _ => simp [incomplete] at complete
    | tooLong incomplete _ => simp [incomplete] at complete
    | last again stops' _ =>
      cases complete.symm.trans again
      cases stops.symm.trans stops'
      rfl
    | next again goes _ =>
      cases complete.symm.trans again
      cases stops.symm.trans goes
      contradiction
  · rintro rfl
    exact .last complete stops ended

theorem parses_next_iff {settings' : Settings} {user' : σ}
    (goes : protocol.read user settings element.presented = (.open, ⟨some (.new settings'), user'⟩)) :
    Parses protocol user settings stream (outcome.after [element.presented] element.length) ↔
      Parses protocol user' settings' (stream.drop element.length) outcome := by
  constructor
  · generalize whole : outcome.after [element.presented] element.length = total
    intro parses
    cases parses with
    | waiting incomplete _ => simp [incomplete] at complete
    | tooLong incomplete _ => simp [incomplete] at complete
    | last again stops ended =>
      cases complete.symm.trans again
      cases goes.symm.trans stops
      contradiction
    | next again goes' rest =>
      cases complete.symm.trans again
      have same := goes.symm.trans goes'
      simp only [Prod.mk.injEq, true_and, Parser.mk.injEq, Option.some.injEq] at same
      have sameSettings := congrArg SubParser.settings same.1
      simp only [SubParser.settings_new] at sameSettings
      rw [Outcome.after_injective _ _ whole, sameSettings, same.2]
      exact rest
  · exact .next complete goes

/-- The first element comes first. -/
theorem presented_of_parses (parses : Parses protocol user settings stream outcome) :
    ∃ later, outcome.presented = element.presented :: later := by
  cases parses with
  | waiting incomplete _ => simp [incomplete] at complete
  | tooLong incomplete _ => simp [incomplete] at complete
  | last again _ _ =>
    cases complete.symm.trans again
    exact ⟨[], rfl⟩
  | next again _ _ =>
    cases complete.symm.trans again
    exact ⟨_, rfl⟩

end

/-- A stream has one outcome. -/
theorem parses_unique {protocol : Protocol σ} {user : σ} {settings : Settings} {stream : Bytes} {a b : Outcome σ}
    (first : Parses protocol user settings stream a) (second : Parses protocol user settings stream b) : a = b := by
  induction first generalizing b with
  | waiting incomplete fits => exact ((parses_waiting_iff incomplete fits).mp second).symm
  | tooLong incomplete long => exact ((parses_tooLong_iff incomplete long).mp second).symm
  | last complete stops ended => exact ((parses_last_iff complete stops ended).mp second).symm
  | next complete goes rest ih =>
    cases second with
    | waiting incomplete _ => simp [incomplete] at complete
    | tooLong incomplete _ => simp [incomplete] at complete
    | last again stops ended =>
      cases complete.symm.trans again
      cases goes.symm.trans stops
      contradiction
    | next again goes' rest' =>
      cases complete.symm.trans again
      have whole := (parses_next_iff complete goes).mp (.next complete goes' rest')
      rw [ih whole]

end

end Mantids.Memory.Streams
