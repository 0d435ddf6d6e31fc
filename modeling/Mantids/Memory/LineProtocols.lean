import Mantids.Memory.WholeElements

/-! Protocols whose sub parsers each wait for one delimiter. What finishes them is a whole number of elements, however
it is cut, and up to there the state is one that `parse()` and the changes of the sub parser keep. -/

set_option autoImplicit false

namespace Mantids.Memory.Streams

/-- One delimiter, within the chunks of a container. -/
structure Settings.Line (settings : Settings) : Prop where
  mode : settings.parseMode = .delimiter
  some : 0 < (settings.parseDataTargetSize : Nat)
  target : settings.parseDataTargetSize ≤ Limits.default.maxChunks

section
variable {settings : Settings} (line : settings.Line)
include line

theorem Settings.Line.small : settings.Small := ⟨.inl line.mode, line.some, line.target⟩

theorem Settings.Line.bounded : settings.Bounded := ⟨.inl line.mode, line.target⟩

/-- A line is an element with the delimiter behind it, where both fit. -/
theorem Settings.Line.firstElement_of_occurrence {text later : Bytes} (filled : settings.parseDelimiter ≠ [])
    (found : Library.occurrence settings.parseDelimiter (text ++ settings.parseDelimiter ++ later) = Option.some text.length) :
    settings.firstElement (text ++ settings.parseDelimiter ++ later) =
      if text.length + settings.parseDelimiter.length ≤ settings.parseDataTargetSize then
        Option.some ⟨text, none, text.length + settings.parseDelimiter.length⟩ else none := by
  have notSize : settings.parseMode ≠ .size := by
    rw [line.mode]
    simp
  have positive := List.length_pos_of_ne_nil filled
  rw [Settings.firstElement_delimiter notSize]
  simp only [Settings.firstDelimiter, line.mode, Option.map_map]
  split
  · rename_i fits
    have room : text.length < settings.parseDataTargetSize := by omega
    rw [Library.occurrence_take_eq_some_iff.mpr ⟨found, room, fits⟩, Option.map_some]
    simp [Found.element]
  · rename_i long
    rw [Option.map_eq_none_iff]
    cases here : Library.occurrence settings.parseDelimiter
        ((text ++ settings.parseDelimiter ++ later).take settings.parseDataTargetSize) with
    | none => rfl
    | some pos =>
      obtain ⟨occurs, fits⟩ := Library.occurrence_take_eq_some_iff.mp here
      rw [found, Option.some.injEq] at occurs
      subst occurs
      exact absurd fits.2 long

theorem Settings.Line.firstElement_eq {first : UInt8} {more text : Bytes} (delimiter : settings.parseDelimiter = first :: more)
    (absent : first ∉ text) (later : Bytes) :
    settings.firstElement (text ++ (first :: more) ++ later) =
      if text.length + (first :: more).length ≤ settings.parseDataTargetSize then
        Option.some ⟨text, none, text.length + (first :: more).length⟩ else none := by
  have found := Library.occurrence_of_notMem absent more later
  rw [show text ++ first :: (more ++ later) = text ++ (first :: more) ++ later by simp] at found
  rw [← delimiter] at found ⊢
  exact line.firstElement_of_occurrence (by rw [delimiter]; exact List.cons_ne_nil first more) found

end

section
variable {σ : Type}

structure Protocol.Lines (protocol : Protocol σ) : Prop where
  parse : ∀ user settings presented, settings.Line → (protocol.parse user settings presented).2.1.Line
  changeToNextParser : ∀ user settings user', protocol.changeToNextParser user = some (some settings, user') → settings.Line

theorem Protocol.Lines.bounded {protocol : Protocol σ} (lines : protocol.Lines)
    (parse : ∀ user settings presented, settings.Bounded → (protocol.parse user settings presented).2.1.Bounded) :
    protocol.Bounded :=
  ⟨parse, fun user settings user' change => (lines.changeToNextParser user settings user' change).bounded⟩

/-! ## Whole elements -/

section
variable {protocol : Protocol σ} (lines : protocol.Lines)
include lines

/-- A reader that goes on has read what is presented and waits with nothing. -/
theorem next_open {reader reader' : Reader σ} (line : reader.settings.Line) {presented : Presented}
    (next : protocol.next reader presented = (.open, reader')) :
    reader'.settings.Line ∧ reader'.pending = [] ∧
      protocol.read reader.user reader.settings presented = (.open, ⟨some (.new reader'.settings), reader'.user⟩) := by
  have kept := lines.parse reader.user reader.settings presented line
  cases read : protocol.read reader.user reader.settings presented with
  | mk verdict parser =>
    simp only [Protocol.next, read, Prod.mk.injEq] at next
    obtain ⟨rfl, rfl⟩ := next
    unfold Protocol.read at read
    generalize protocol.parse reader.user reader.settings presented = result at read kept
    obtain ⟨status, settings, user⟩ := result
    obtain ⟨settings', current, origin⟩ := turn_open read
    have line' : settings'.Line := by
      rcases origin with rfl | change
      · exact kept
      · exact lines.changeToNextParser _ _ _ change
    obtain ⟨currentParser, user'⟩ := parser
    dsimp only at current
    subst current
    exact ⟨line', rfl, rfl⟩

/-- What one write does to a stream that goes on behind it. -/
theorem feed_completes (turns : Nat) {reader reader' : Reader σ} (line : reader.settings.Line) {buf : Bytes}
    {verdict : Verdict} (fed : protocol.feed turns reader buf = (verdict, reader')) (later : Bytes) :
    (verdict = .finished → ∃ n, Completes protocol n reader.user reader.settings (reader.pending ++ buf ++ later)
        (.finished, reader'.user)) ∧
      (verdict = .open → reader'.settings.Line ∧ ∀ n final,
        Completes protocol n reader'.user reader'.settings (reader'.pending ++ later) final →
          ∃ m, Completes protocol m reader.user reader.settings (reader.pending ++ buf ++ later) final) := by
  induction turns generalizing reader buf with
  | zero =>
    cases fed
    exact ⟨(fun impossible => by cases impossible), (fun impossible => by cases impossible)⟩
  | succ turns ih =>
    rw [Protocol.feed, listedElement_eq line.mode] at fed
    dsimp only at fed
    cases first : reader.settings.firstElement (reader.pending ++ buf) with
    | some element =>
      have whole := Settings.firstElement_append first later
      have bound := (Settings.firstElement_length_le first).1
      have rest : (reader.pending ++ buf ++ later).drop element.length =
          (reader.pending ++ buf).drop element.length ++ later := List.drop_append_of_le_length bound
      rw [first] at fed
      dsimp only at fed
      cases next : protocol.next reader element.presented with
      | mk verdict' reader'' =>
        rw [next] at fed
        dsimp only at fed
        split at fed
        · rename_i more
          obtain ⟨rfl, -⟩ := more
          obtain ⟨line'', nothing, goes⟩ := next_open lines line next
          obtain ⟨finished, opened⟩ := ih line'' fed
          rw [nothing, List.nil_append, ← rest] at finished opened
          refine ⟨fun done => ?_, fun done => ⟨(opened done).1, fun n final completes => ?_⟩⟩
          · obtain ⟨n, completes⟩ := finished done
            exact ⟨n + 1, .next line.small whole goes completes⟩
          · obtain ⟨m, completes⟩ := (opened done).2 n final completes
            exact ⟨m + 1, .next line.small whole goes completes⟩
        · rename_i beyond
          cases fed
          refine ⟨?_, ?_⟩
          · rintro rfl
            cases read : protocol.read reader.user reader.settings element.presented with
            | mk verdict parser =>
              simp only [Protocol.next, read, Prod.mk.injEq] at next
              obtain ⟨rfl, rfl⟩ := next
              exact ⟨1, .last line.small whole read (fun impossible => by cases impossible)⟩
          · rintro rfl
            obtain ⟨line'', nothing, goes⟩ := next_open lines line next
            have all : (reader.pending ++ buf).drop element.length = [] := by
              by_contra left
              exact beyond ⟨rfl, left⟩
            rw [all, List.nil_append] at rest
            refine ⟨line'', fun n final completes => ⟨n + 1, ?_⟩⟩
            rw [nothing, List.nil_append, ← rest] at completes
            exact .next line.small whole goes completes
    | none =>
      rw [first] at fed
      dsimp only at fed
      split at fed
      · cases fed
        exact ⟨(fun impossible => by cases impossible), (fun impossible => by cases impossible)⟩
      · split at fed
        · have same := @ih { reader with pending := (reader.pending ++ buf).take reader.settings.parseDataTargetSize }
            line _ fed
          dsimp only at same
          rwa [List.take_append_drop] at same
        · rename_i fits
          cases fed
          refine ⟨(fun impossible => by cases impossible), fun _ => ⟨line, fun n final completes => ⟨n, ?_⟩⟩⟩
          have whole : (reader.pending ++ buf).take reader.settings.parseDataTargetSize = reader.pending ++ buf := by
            have joined := List.take_append_drop (reader.settings.parseDataTargetSize : Nat) (reader.pending ++ buf)
            rwa [not_not.mp fits, List.append_nil] at joined
          dsimp only at completes
          rwa [whole] at completes

theorem feedAll_completes {reader reader' : Reader σ} (line : reader.settings.Line) {writes : List Bytes}
    (fed : protocol.feedAll reader writes = (.finished, reader')) :
    ∃ n, Completes protocol n reader.user reader.settings (reader.pending ++ writes.flatten) (.finished, reader'.user) := by
  induction writes generalizing reader with
  | nil => cases fed
  | cons buf later ih =>
    rw [Protocol.feedAll] at fed
    rw [List.flatten_cons, ← List.append_assoc]
    cases result : protocol.feed (protocol.maxTTL + 1) reader buf with
    | mk verdict next =>
      obtain ⟨finished, opened⟩ := feed_completes lines _ line result later.flatten
      rw [result] at fed
      dsimp only at fed
      split at fed
      · rename_i goes
        obtain ⟨line', back⟩ := opened goes
        obtain ⟨n, completes⟩ := ih line' fed
        exact back n _ completes
      · cases fed
        exact finished rfl

/-- What has finished the parser is a stream of whole elements. -/
theorem completes_of_finished (all : protocol.Bounded) {settings : Settings} (line : settings.Line) {user : σ}
    {writes : List Bytes} (filled : ∀ buf ∈ writes, buf ≠ []) {parser : Parser σ}
    (finished : protocol.writeAll ⟨some (.new settings), user⟩ writes = (.finished, parser)) :
    ∃ n, Completes protocol n user settings writes.flatten (.finished, parser.user) := by
  obtain ⟨verdict, user, -⟩ := writeAll_feedAll all (stands_new line.bounded user) filled
  rw [finished] at verdict user
  cases fed : protocol.feedAll ⟨settings, [], _⟩ writes with
  | mk fedVerdict reader' =>
    rw [fed] at verdict user
    dsimp only at verdict user
    subst verdict
    rw [user]
    exact feedAll_completes lines line fed

end

/-! ## One element after the other -/

section
variable {protocol : Protocol σ} {n : Nat} {user : σ} {settings : Settings} {stream : Bytes} {final : Verdict × σ}
  (completes : Completes protocol n user settings stream final)
include completes

theorem Completes.of_next {element : Element} (complete : settings.firstElement stream = some element)
    {settings' : Settings} {user' : σ}
    (goes : protocol.read user settings element.presented = (.open, ⟨some (.new settings'), user'⟩)) :
    ∃ m, Completes protocol m user' settings' (stream.drop element.length) final := by
  cases completes with
  | last small again stops ended =>
    cases complete.symm.trans again
    rw [goes] at stops
    cases stops
    exact absurd rfl ended
  | @next m _ _ _ _ _ _ _ small again goes' rest =>
    cases complete.symm.trans again
    rw [goes] at goes'
    simp only [Prod.mk.injEq, Parser.mk.injEq, Option.some.injEq, true_and] at goes'
    obtain ⟨same, rfl⟩ := goes'
    have settings := congrArg SubParser.settings same
    rw [SubParser.settings_new, SubParser.settings_new] at settings
    subst settings
    exact ⟨m, rest⟩

theorem Completes.of_last {element : Element} (complete : settings.firstElement stream = some element)
    {verdict : Verdict} {parser : Parser σ}
    (stops : protocol.read user settings element.presented = (verdict, parser)) (ended : verdict ≠ .open) :
    final = (verdict, parser.user) := by
  cases completes with
  | last small again stops' _ =>
    cases complete.symm.trans again
    rw [stops] at stops'
    cases stops'
    rfl
  | next small again goes _ =>
    cases complete.symm.trans again
    rw [stops] at goes
    cases goes
    exact absurd rfl ended

end

/-! ## What every state is -/

/-- A sub parser leaves the state to `parse()`. -/
theorem user_writeIntoParser (parse : Parse σ) (user : σ) (fresh : Fresh) (p : SubParser) (buf : Bytes) :
    (writeIntoParser parse user fresh p buf).user = user ∨ ∃ settings presented,
      (writeIntoParser parse user fresh p buf).user = (parse user settings presented).2.2 := by
  have upTo : ∀ find atEnd (q : SubParser), (parseUpTo parse user find atEnd q buf).user = user ∨ ∃ settings presented,
      (parseUpTo parse user find atEnd q buf).user = (parse user settings presented).2.2 := by
    intro find atEnd q
    unfold parseUpTo
    generalize (if buf = [] then { q with streamEnded := true } else q) = q
    dsimp only
    split
    · exact .inl rfl
    · split
      · exact .inr ⟨_, _, rfl⟩
      · split
        · exact .inr ⟨_, _, rfl⟩
        · exact .inl rfl
  unfold writeIntoParser
  generalize (if buf = [] then { p with streamEnded := true } else p) = p
  dsimp only
  cases p.parseMode with
  | delimiter => exact upTo _ _ _
  | multiDelimiter => exact upTo _ _ _
  | size =>
    dsimp only [parseBySize]
    split
    · exact .inl rfl
    · split
      · exact .inl rfl
      · split
        · exact .inr ⟨_, _, rfl⟩
        · exact .inl rfl
  | connectionEnd =>
    dsimp only [parseByConnectionEnd]
    split
    · exact .inl rfl
    · split
      · exact .inr ⟨_, _, rfl⟩
      · exact .inl rfl
  | direct =>
    dsimp only [parseDirect]
    split
    · exact .inl rfl
    · exact .inr ⟨_, _, rfl⟩
  | directDelimiter =>
    dsimp only [parseDirectDelimiter]
    split
    · exact .inl rfl
    · split
      · exact .inl rfl
      · split
        · exact .inr ⟨_, _, rfl⟩
        · exact .inr ⟨_, _, rfl⟩
  | validator => exact .inl rfl
  | freeParser => exact .inl rfl

section
variable (protocol : Protocol σ) (Keeps : σ → Prop)

/-- Unfinished, a state that is kept; finished, what the last change has made of one. -/
def Ended (verdict : Verdict) (user : σ) : Prop :=
  (verdict ≠ .finished ∧ Keeps user) ∨
    (verdict = .finished ∧ ∃ before, Keeps before ∧ protocol.changeToNextParser before = some (none, user))

variable {protocol Keeps} (parse : ∀ user settings presented, Keeps user → Keeps (protocol.parse user settings presented).2.2)
  (change : ∀ user settings user', Keeps user → protocol.changeToNextParser user = some (some settings, user') →
    Keeps user')
include change

include parse

end

end

end Mantids.Memory.Streams
