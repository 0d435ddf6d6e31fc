import Mantids.Memory.Fragmentation

/-! A parser without its containers: what it waits with is a list of bytes. Sub parsers
that wait for a delimiter, within few enough bytes for the chunks, refine it. -/

set_option autoImplicit false

namespace Mantids.Memory.Streams

/-- Where a parser is between two writes. -/
structure Reader (σ : Type) where
  settings : Settings
  pending : Bytes
  user : σ

namespace Settings

/-- What the mode looks for: of several delimiters the first in the list that is there. -/
def listed (settings : Settings) (buffer : Bytes) : Option Found :=
  match settings.parseMode with
  | .delimiter =>
    (Library.occurrence settings.parseDelimiter buffer).map fun pos => ⟨pos, settings.parseDelimiter.length, none⟩
  | .multiDelimiter =>
    (Library.firstListed settings.parseMultiDelimiter buffer).map fun (pos, delimiterFound) =>
      ⟨pos, delimiterFound.length, some delimiterFound⟩
  | _ => none

def listedElement (settings : Settings) (stream : Bytes) : Option Element :=
  (settings.listed (stream.take settings.parseDataTargetSize)).map fun found => found.element stream

/-- What comes with the rest at the end of the stream. -/
def atEnd (settings : Settings) : Option Bytes :=
  match settings.parseMode with
  | .multiDelimiter => some []
  | _ => none

/-- A delimiter mode whose target size the chunks of a container suffice for. -/
structure Bounded (settings : Settings) : Prop where
  mode : settings.parseMode = .delimiter ∨ settings.parseMode = .multiDelimiter
  target : settings.parseDataTargetSize ≤ Limits.default.maxChunks

section
variable {settings : Settings} {buffer : Bytes}

theorem Bounded.buffers (bounded : settings.Bounded) : settings.parseMode.Buffers := by
  rcases bounded.mode with mode | mode <;> rw [mode] <;> trivial

theorem Bounded.not_size (bounded : settings.Bounded) : settings.parseMode ≠ .size := by
  rcases bounded.mode with mode | mode <;> rw [mode] <;> simp

theorem listed_end_le {found : Found} (here : settings.listed buffer = some found) :
    found.pos + found.length ≤ buffer.length := by
  cases mode : settings.parseMode with
  | delimiter =>
    simp only [listed, mode] at here
    obtain ⟨pos, occurs, rfl⟩ := Option.map_eq_some_iff.mp here
    exact Library.occurrence_end_le occurs
  | multiDelimiter =>
    simp only [listed, mode] at here
    obtain ⟨⟨pos, delimiter⟩, first, rfl⟩ := Option.map_eq_some_iff.mp here
    exact Library.occurrence_end_le (Library.occurrence_of_firstListed first).2
  | _ => simp [listed, mode] at here

theorem listedElement_length_le {stream : Bytes} {element : Element}
    (listed : settings.listedElement stream = some element) :
    element.length ≤ stream.length ∧ element.length ≤ settings.parseDataTargetSize := by
  obtain ⟨found, here, rfl⟩ := Option.map_eq_some_iff.mp listed
  have ends := listed_end_le here
  rw [List.length_take] at ends
  simp only [Found.element]
  omega

/-- What a delimiter mode finds in a buffer it has not found in a part of it. -/
theorem le_end_of_listed {found : Found} {n : Nat} (here : settings.listed buffer = some found)
    (missing : settings.firstDelimiter (buffer.take n) = none) : n ≤ found.pos + found.length := by
  cases mode : settings.parseMode with
  | delimiter =>
    simp only [listed, firstDelimiter, mode] at here missing
    obtain ⟨pos, occurs, rfl⟩ := Option.map_eq_some_iff.mp here
    exact Library.le_end_of_occurrence occurs (Option.map_eq_none_iff.mp missing)
  | multiDelimiter =>
    simp only [listed, firstDelimiter, mode] at here missing
    obtain ⟨⟨pos, delimiter⟩, first, rfl⟩ := Option.map_eq_some_iff.mp here
    obtain ⟨member, occurs⟩ := Library.occurrence_of_firstListed first
    rw [Option.map_eq_none_iff, Library.earliest_eq_none_iff, Library.firstListed_eq_none_iff] at missing
    exact Library.le_end_of_occurrence occurs (missing delimiter member)
  | _ => simp [listed, mode] at here

theorem listed_eq_none_iff : settings.listed buffer = none ↔ settings.firstDelimiter buffer = none := by
  cases mode : settings.parseMode with
  | multiDelimiter =>
    simp only [listed, firstDelimiter, mode, Option.map_eq_none_iff]
    exact Library.earliest_eq_none_iff.symm
  | _ => simp only [listed, firstDelimiter, mode]

end

end Settings

/-- The sub parser is the reader's, with the bytes that wait in no more chunks than they are. -/
structure Holds (p : SubParser) (settings : Settings) (pending : Bytes) : Prop where
  waiting : Waiting p
  configured : p.settings = settings
  held : p.pending = pending
  chunks : p.unparsedBuffer.chunksVector.length ≤ pending.length

theorem holds_new {settings : Settings} (buffers : settings.parseMode.Buffers) : Holds (.new settings) settings [] :=
  ⟨waiting_new buffers, rfl, rfl, Nat.le_refl 0⟩

theorem chunkCount_le {limits : Limits} (size : limits.maxChunkSize = Limits.default.maxChunkSize) (bytes : Nat) :
    limits.chunkCount bytes ≤ bytes := by
  unfold Limits.chunkCount
  rw [size]
  change (bytes + 65536 - 1) / 65536 ≤ bytes
  omega

section
variable {p : SubParser} {settings : Settings} {pending : Bytes} (holds : Holds p settings pending)
include holds

theorem Holds.target : p.unparsedBuffer.limits.maxSize = settings.parseDataTargetSize := by
  rw [← holds.configured]
  rfl

theorem Holds.fits : pending.length ≤ settings.parseDataTargetSize := by
  have fits := holds.waiting.fits
  rwa [← holds.waiting.length_pending, holds.held, holds.target] at fits

theorem Holds.sizeLeft : p.unparsedBuffer.getSizeLeft = settings.parseDataTargetSize - pending.length := by
  rw [holds.waiting.sizeLeft, holds.target, holds.held]

theorem Holds.taken_le (buf : Bytes) : (buf.take p.unparsedBuffer.getSizeLeft).length ≤
    settings.parseDataTargetSize - pending.length := by
  rw [List.length_take, holds.sizeLeft]
  exact Nat.min_le_left _ _

theorem Holds.room (target : settings.parseDataTargetSize ≤ Limits.default.maxChunks) (buf : Bytes) : HasRoom p buf := by
  have chunks := holds.chunks
  have fits := holds.fits
  have taken := holds.taken_le buf
  have count := chunkCount_le holds.waiting.maxChunkSize (buf.take p.unparsedBuffer.getSizeLeft).length
  rw [HasRoom, holds.waiting.maxChunks]
  omega

/-- What has taken bytes that complete nothing waits with them. -/
theorem Holds.appended {buf : Bytes} {c : BChunks}
    (appended : BChunks.Appended p.unparsedBuffer (buf.take p.unparsedBuffer.getSizeLeft) c) (room : HasRoom p buf)
    (incomplete : settings.firstElement (pending ++ buf) = none) :
    Holds { p with unparsedBuffer := c } settings ((pending ++ buf).take settings.parseDataTargetSize) := by
  have chunks := holds.chunks
  have count := chunkCount_le holds.waiting.maxChunkSize (buf.take p.unparsedBuffer.getSizeLeft).length
  have more := appended.chunks
  have whole : p.pending ++ buf.take p.unparsedBuffer.getSizeLeft = _ := take_pending holds.waiting
  rw [holds.held, holds.target] at whole
  have length := congrArg List.length whole
  rw [List.length_append] at length
  rw [← holds.configured, ← holds.held] at incomplete
  constructor
  case waiting => exact waiting_appended holds.waiting appended room incomplete
  case configured =>
    rw [← holds.configured]
    simp only [SubParser.settings, appended.limits]
  case held =>
    rw [← whole, ← holds.held]
    exact appended.content
  case chunks =>
    change c.chunksVector.length ≤ _
    omega

/-- A sub parser that has cleared its buffer waits with nothing. -/
theorem Holds.clear : Holds p.clear settings [] where
  waiting := {
    counted := ⟨rfl, Nat.two_pow_pos 64⟩
    fits := Nat.zero_le _
    chunks := Nat.zero_le _
    maxChunks := holds.waiting.maxChunks
    maxChunkSize := holds.waiting.maxChunkSize
    running := holds.waiting.running
    buffers := holds.waiting.buffers
    incomplete := Settings.firstElement_nil }
  configured := holds.configured
  held := rfl
  chunks := Nat.le_refl 0

end

/-! ## One write to a sub parser -/

section
variable {σ : Type} (parse : Parse σ) (user : σ)

theorem writeIntoParser_delimiter {p : SubParser} {buf : Bytes} (fresh : Fresh) (mode : p.parseMode = .delimiter) :
    writeIntoParser parse user fresh p buf =
      parseByDelimiter parse user (if buf = [] then { p with streamEnded := true } else p) buf := by
  unfold writeIntoParser
  split <;> simp only [mode]

theorem writeIntoParser_multiDelimiter {p : SubParser} {buf : Bytes} (fresh : Fresh)
    (mode : p.parseMode = .multiDelimiter) :
    writeIntoParser parse user fresh p buf =
      parseByMultiDelimiter parse user (if buf = [] then { p with streamEnded := true } else p) buf := by
  unfold writeIntoParser
  split <;> simp only [mode]

/-- A sub parser that waits for its delimiter, with what it is called with. -/
theorem write_delimiter (fresh : Fresh) {p : SubParser} (mode : p.parseMode = .delimiter) (buf : Bytes) :
    (writeIntoParser parse user fresh p buf).taken = none ∨
      (∃ taken p', p'.parseMode = .delimiter ∧
        writeIntoParser parse user fresh p buf = ⟨some taken, .getMoreData, p', user, []⟩) ∨
      ∃ q parsedBuffer taken, q.parseMode = .delimiter ∧
        writeIntoParser parse user fresh p buf = present parse user q (.element parsedBuffer none) taken := by
  rw [writeIntoParser_delimiter parse user fresh mode]
  have ends : ∀ q : SubParser, q.parseMode = .delimiter →
      (if buf = [] then { q with streamEnded := true } else q).parseMode = .delimiter := by
    intro q mode
    split <;> exact mode
  have same := ends _ (ends p mode)
  unfold parseByDelimiter parseUpTo
  generalize (if buf = [] then { p with streamEnded := true } else p) = q at same ⊢
  generalize (if buf = [] then { q with streamEnded := true } else q) = r at same ⊢
  dsimp only
  split
  · exact .inl rfl
  · split
    · rename_i here
      obtain ⟨pos, -, rfl⟩ := Option.map_eq_some_iff.mp here
      exact .inr (.inr ⟨_, _, _, by exact same, rfl⟩)
    · split
      · exact .inr (.inr ⟨_, _, _, by exact same, rfl⟩)
      · exact .inr (.inl ⟨_, _, by exact same, rfl⟩)

/-- What a sub parser does with a write that is not empty. -/
inductive Turn (settings : Settings) (pending buf : Bytes) : Written σ → Prop where
  | element {element : Element} {taken : Nat} (listed : settings.listedElement (pending ++ buf) = some element)
      (count : pending.length + taken = element.length) :
      Turn settings pending buf (delivered parse user settings element.presented taken)
  | more {p' : SubParser} (missing : settings.listedElement (pending ++ buf) = none)
      (below : pending.length < settings.parseDataTargetSize)
      (holds : Holds p' settings ((pending ++ buf).take settings.parseDataTargetSize)) :
      Turn settings pending buf
        ⟨some (buf.take (settings.parseDataTargetSize - pending.length)).length, .getMoreData, p', user, []⟩
  | full {p' : SubParser} (missing : settings.listedElement (pending ++ buf) = none)
      (full : pending.length = settings.parseDataTargetSize) (holds : Holds p' settings []) :
      Turn settings pending buf ⟨none, .getMoreData, p', user, []⟩

variable {p : SubParser} {settings : Settings} {pending buf : Bytes} (holds : Holds p settings pending)
  (bounded : settings.Bounded) (filled : buf ≠ [])
include holds bounded

theorem listedElement_of_full (full : pending.length = settings.parseDataTargetSize) :
    settings.listedElement (pending ++ buf) = none := by
  have missing := holds.waiting.incomplete
  rw [holds.configured, holds.held, Settings.firstElement_delimiter bounded.not_size, Option.map_eq_none_iff] at missing
  rw [Settings.listedElement, Option.map_eq_none_iff, List.take_append_of_le_length (Nat.le_of_eq full.symm)]
  rw [← full, List.take_length] at missing ⊢
  exact Settings.listed_eq_none_iff.mpr missing

include filled

theorem parseUpTo_turn (find : BChunks → Option Found) (atEnd : Option Bytes)
    (finds : ∀ c : BChunks, c.Counted → find c = settings.listed (content c.chunksVector)) :
    Turn parse user settings pending buf (parseUpTo parse user find atEnd p buf) := by
  have fits := holds.fits
  by_cases left : p.unparsedBuffer.getSizeLeft = 0
  · rw [parseUpTo_full parse user holds.waiting filled find atEnd left]
    have full : pending.length = settings.parseDataTargetSize := by
      rw [holds.sizeLeft] at left
      omega
    exact .full (listedElement_of_full holds bounded full) full holds.clear
  · have below : pending.length < settings.parseDataTargetSize := by
      rw [holds.sizeLeft] at left
      omega
    have room := holds.room bounded.target buf
    obtain ⟨c, appended, result⟩ := parseUpTo_room parse user holds.waiting filled find atEnd left room
    have whole : content c.chunksVector = (pending ++ buf).take settings.parseDataTargetSize := by
      rw [← holds.held, ← holds.target, ← take_pending holds.waiting]
      exact appended.content
    rw [result, finds c appended.counted, whole, holds.held, holds.configured]
    cases here : settings.listed ((pending ++ buf).take settings.parseDataTargetSize) with
    | some found =>
      have listed : settings.listedElement (pending ++ buf) = some (found.element (pending ++ buf)) := by
        rw [Settings.listedElement, here, Option.map_some]
      have word := settings.parseDataTargetSize.isLt
      have ends := Settings.listed_end_le here
      have bound := List.length_take_le settings.parseDataTargetSize (pending ++ buf)
      have begins : pending.length ≤ found.pos + found.length := by
        apply Settings.le_end_of_listed here
        have missing := holds.waiting.incomplete
        rw [holds.configured, holds.held, Settings.firstElement_delimiter bounded.not_size,
          Option.map_eq_none_iff] at missing
        rw [List.take_take, Nat.min_eq_left fits, List.take_left' rfl]
        rwa [List.take_of_length_le fits] at missing
      dsimp only
      rw [List.take_take, Nat.min_eq_left (by omega)]
      exact .element listed (bytesToDisplace_add begins (by omega))
    | none =>
      have missing : settings.listedElement (pending ++ buf) = none := by
        rw [Settings.listedElement, here, Option.map_none]
      have incomplete : settings.firstElement (pending ++ buf) = none := by
        rw [Settings.firstElement_delimiter bounded.not_size, Settings.listed_eq_none_iff.mp here, Option.map_none]
      rw [holds.sizeLeft]
      exact .more missing below (holds.appended appended room incomplete)

theorem write_turn (fresh : Fresh) : Turn parse user settings pending buf (writeIntoParser parse user fresh p buf) := by
  have same : settings.parseMode = p.parseMode := by
    rw [← holds.configured]
    rfl
  rcases bounded.mode with mode | mode
  · rw [same] at mode
    rw [writeIntoParser_delimiter parse user fresh mode, if_neg filled]
    apply parseUpTo_turn parse user holds bounded filled
    intro c counted
    simp only [BChunks.find_eq counted, ← holds.configured, Settings.listed, SubParser.settings, mode]
  · rw [same] at mode
    rw [writeIntoParser_multiDelimiter parse user fresh mode, if_neg filled]
    apply parseUpTo_turn parse user holds bounded filled
    intro c counted
    simp only [BChunks.findAny_eq counted, ← holds.configured, Settings.listed, SubParser.settings, mode]

omit filled in
/-- At the end of the stream what waits is presented as it is. -/
theorem parseUpTo_end (find : BChunks → Option Found) (atEnd : Option Bytes)
    (finds : ∀ c : BChunks, c.Counted → find c = settings.listed (content c.chunksVector)) :
    parseUpTo parse user find atEnd { p with streamEnded := true } [] =
      present parse user { p with streamEnded := true } (.element pending atEnd) 0 := by
  have fits := holds.fits
  have nothing := BChunks.append_nil holds.waiting.counted holds.waiting.fits
  have stick : SubParser.stick { p with streamEnded := true } [] = [] := by
    unfold SubParser.stick
    split
    · exact List.take_nil
    · rfl
  have missing : find p.unparsedBuffer = none := by
    have incomplete := holds.waiting.incomplete
    rw [holds.configured, holds.held, Settings.firstElement_delimiter bounded.not_size, Option.map_eq_none_iff,
      List.take_of_length_le fits, ← Settings.listed_eq_none_iff, ← holds.held] at incomplete
    rw [finds _ holds.waiting.counted]
    exact incomplete
  have held : SubParser.pending { p with streamEnded := true } = pending := holds.held
  simp only [parseUpTo, if_true, stick, nothing, missing, held, ne_eq, not_true_eq_false, false_and, if_false]

omit filled in
theorem write_end (fresh : Fresh) :
    writeIntoParser parse user fresh p [] =
      present parse user { p with streamEnded := true } (.element pending settings.atEnd) 0 := by
  have same : settings.parseMode = p.parseMode := by
    rw [← holds.configured]
    rfl
  rcases bounded.mode with mode | mode
  · have atEnd : settings.atEnd = none := by
      simp only [Settings.atEnd, mode]
    rw [same] at mode
    rw [writeIntoParser_delimiter parse user fresh mode, if_pos rfl, atEnd]
    apply parseUpTo_end parse user holds bounded
    intro c counted
    simp only [BChunks.find_eq counted, ← holds.configured, Settings.listed, SubParser.settings, mode]
  · have atEnd : settings.atEnd = some [] := by
      simp only [Settings.atEnd, mode]
    rw [same] at mode
    rw [writeIntoParser_multiDelimiter parse user fresh mode, if_pos rfl, atEnd]
    apply parseUpTo_end parse user holds bounded
    intro c counted
    simp only [BChunks.findAny_eq counted, ← holds.configured, Settings.listed, SubParser.settings, mode]

end

/-! ## Runs of writes -/

section
variable {σ : Type} (protocol : Protocol σ)

/-- What becomes of the reader when `parse()` is called. -/
def Protocol.next (reader : Reader σ) (presented : Presented) : Verdict × Reader σ :=
  let (verdict, parser) := protocol.read reader.user reader.settings presented
  (verdict, ⟨(parser.currentParser.map SubParser.settings).getD reader.settings, [], parser.user⟩)

/-- One write with `turns` turns left. -/
def Protocol.feed : (turns : Nat) → Reader σ → Bytes → Verdict × Reader σ
  | 0, reader, _ => (.expired, reader)
  | turns + 1, reader, buf =>
    let stream := reader.pending ++ buf
    match reader.settings.listedElement stream with
    | some element =>
      let (verdict, next) := protocol.next reader element.presented
      if verdict = .open ∧ stream.drop element.length ≠ [] then feed turns next (stream.drop element.length)
      else (verdict, next)
    | none =>
      let target := reader.settings.parseDataTargetSize
      if target ≤ reader.pending.length then (.failed, { reader with pending := [] })
      else if stream.drop target ≠ [] then feed turns { reader with pending := stream.take target } (stream.drop target)
      else (.open, { reader with pending := stream.take target })

/-- Writes until one fails or finishes. -/
def Protocol.feedAll : Reader σ → List Bytes → Verdict × Reader σ
  | reader, [] => (.open, reader)
  | reader, buf :: later =>
    let (verdict, next) := protocol.feed (protocol.maxTTL + 1) reader buf
    if verdict = .open then feedAll next later else (verdict, next)

def Protocol.feedEOF (reader : Reader σ) : Reader σ :=
  (protocol.next reader (.element reader.pending reader.settings.atEnd)).2

/-- Sub parsers that only use delimiters, with bounded target sizes. -/
structure Protocol.Bounded : Prop where
  parse : ∀ user settings presented, settings.Bounded → (protocol.parse user settings presented).2.1.Bounded
  changeToNextParser : ∀ user settings user', protocol.changeToNextParser user = some (some settings, user') →
    settings.Bounded

/-- The parser is where the reader is. -/
structure Stands (parser : Parser σ) (reader : Reader σ) : Prop where
  user : parser.user = reader.user
  current : ∃ p, parser.currentParser = some p ∧ Holds p reader.settings reader.pending
  bounded : reader.settings.Bounded

variable {protocol}

theorem stands_new {settings : Settings} (bounded : settings.Bounded) (user : σ) :
    Stands ⟨some (.new settings), user⟩ ⟨settings, [], user⟩ :=
  ⟨rfl, ⟨_, rfl, holds_new bounded.buffers⟩, bounded⟩

/-- Unless it is finished, a parser goes on with a sub parser that has nothing read. -/
theorem stands_read (all : protocol.Bounded) {reader : Reader σ} (bounded : reader.settings.Bounded)
    {presented : Presented} {verdict : Verdict} {parser : Parser σ}
    (read : protocol.read reader.user reader.settings presented = (verdict, parser)) :
    protocol.next reader presented =
        (verdict, ⟨(parser.currentParser.map SubParser.settings).getD reader.settings, [], parser.user⟩) ∧
      (verdict ≠ .finished → Stands parser (protocol.next reader presented).2) := by
  have next : protocol.next reader presented =
      (verdict, ⟨(parser.currentParser.map SubParser.settings).getD reader.settings, [], parser.user⟩) := by
    simp only [Protocol.next, read]
  refine ⟨next, fun unfinished => ?_⟩
  rw [next]
  have parsed := all.parse reader.user reader.settings presented bounded
  unfold Protocol.read at read
  generalize protocol.parse reader.user reader.settings presented = result at read parsed
  obtain ⟨status, settings, user⟩ := result
  cases status with
  | error =>
    cases read
    exact stands_new parsed user
  | getMoreData =>
    cases read
    exact stands_new parsed user
  | gotoNextSubParser =>
    simp only [Protocol.turn] at read
    cases change : protocol.changeToNextParser user with
    | none =>
      rw [change] at read
      cases read
      exact stands_new parsed user
    | some changed =>
      obtain ⟨_ | settings', user'⟩ := changed
      · rw [change] at read
        cases read
        exact absurd rfl unfinished
      · rw [change] at read
        cases read
        exact stands_new (all.changeToNextParser _ _ _ change) user'

/-- What a write to the parser does to the reader. -/
structure Simulates (parsed : Parsed σ) (fed : Verdict × Reader σ) : Prop where
  verdict : parsed.verdict = fed.1
  user : parsed.parser.user = fed.2.user
  stands : fed.1 ≠ .finished → Stands parsed.parser fed.2

theorem Simulates.after {left : Parsed σ} {fed : Verdict × Reader σ} (simulates : Simulates left fed)
    (call : SubParser × Bytes) (presented : List Presented) (taken : Nat) :
    Simulates (left.after call presented taken) fed :=
  ⟨simulates.verdict, simulates.user, simulates.stands⟩

theorem parseData_feed (all : protocol.Bounded) (turns : Nat) {parser : Parser σ} {reader : Reader σ}
    (stands : Stands parser reader) {buf : Bytes} (filled : buf ≠ []) :
    Simulates (protocol.parseData turns parser buf) (protocol.feed turns reader buf) := by
  induction turns generalizing parser reader buf with
  | zero => exact ⟨rfl, stands.user, fun _ => stands⟩
  | succ turns ih =>
    obtain ⟨settings, pending, user⟩ := reader
    obtain ⟨current, user'⟩ := parser
    obtain ⟨same, ⟨p, rfl, holds⟩, bounded⟩ := stands
    dsimp only at same bounded holds
    subst same
    have turn := write_turn protocol.parse user' holds bounded filled (protocol.fresh user')
    generalize result : writeIntoParser protocol.parse user' (protocol.fresh user') p buf = written at turn
    cases turn with
    | @element element taken listed count =>
      cases read : protocol.read user' settings element.presented with
      | mk verdict parser =>
        obtain ⟨next, goes⟩ := @stands_read _ _ all ⟨settings, pending, user'⟩ bounded _ _ _ read
        have bound := (Settings.listedElement_length_le listed).1
        rw [List.length_append] at bound
        have left : (pending ++ buf).drop element.length = buf.drop taken := by
          rw [← count, ← List.drop_drop, List.drop_left' rfl]
        rw [← holds.configured] at result read
        rw [parseData_delivered protocol turns result read]
        simp only [Protocol.feed, listed, next, left]
        by_cases more : verdict = .open ∧ taken ≠ buf.length
        · have rest : buf.drop taken ≠ [] := by
            rw [ne_eq, List.drop_eq_nil_iff]
            omega
          rw [if_pos more, if_pos ⟨more.1, rest⟩]
          rw [next] at goes
          apply Simulates.after
          apply ih (goes _) rest
          rw [more.1]
          simp
        · have beyond : ¬(verdict = .open ∧ buf.drop taken ≠ []) := by
            rintro ⟨opened, rest⟩
            rw [ne_eq, List.drop_eq_nil_iff] at rest
            exact more ⟨opened, by omega⟩
          rw [if_neg more, if_neg beyond]
          rw [next] at goes
          exact ⟨rfl, rfl, goes⟩
    | @more p' missing below holds' =>
      have left : (pending ++ buf).drop settings.parseDataTargetSize =
          buf.drop (buf.take (settings.parseDataTargetSize - pending.length)).length := by
        have target : pending.length + (settings.parseDataTargetSize - pending.length) =
            settings.parseDataTargetSize := by omega
        rw [← target, ← List.drop_drop, List.drop_left' rfl, List.length_take, target]
        rcases Nat.le_total (settings.parseDataTargetSize - pending.length) buf.length with short | long
        · rw [Nat.min_eq_left short]
        · rw [Nat.min_eq_right long, List.drop_length, List.drop_eq_nil_of_le long]
      have stands' : Stands ⟨some p', user'⟩ ⟨settings, (pending ++ buf).take settings.parseDataTargetSize, user'⟩ :=
        ⟨rfl, ⟨p', rfl, holds'⟩, bounded⟩
      rw [parseData_more protocol turns result]
      simp only [Protocol.feed, missing, left]
      rw [if_neg (Nat.not_le.mpr below)]
      by_cases more : (buf.take (settings.parseDataTargetSize - pending.length)).length ≠ buf.length
      · have short := List.length_take_le' (settings.parseDataTargetSize - pending.length) buf
        have rest : buf.drop (buf.take (settings.parseDataTargetSize - pending.length)).length ≠ [] := by
          rw [ne_eq, List.drop_eq_nil_iff]
          omega
        rw [if_pos more, if_pos rest]
        exact (ih stands' rest).after _ _ _
      · have beyond : ¬buf.drop (buf.take (settings.parseDataTargetSize - pending.length)).length ≠ [] := by
          rw [not_not, List.drop_eq_nil_iff]
          omega
        rw [if_neg more, if_neg beyond]
        exact ⟨rfl, rfl, fun _ => stands'⟩
    | @full p' missing full holds' =>
      rw [parseData_refused protocol turns result]
      simp only [Protocol.feed, missing]
      rw [if_pos (Nat.le_of_eq full.symm)]
      exact ⟨rfl, rfl, fun _ => ⟨rfl, ⟨p', rfl, holds'⟩, bounded⟩⟩

theorem writeAll_feedAll (all : protocol.Bounded) {parser : Parser σ} {reader : Reader σ} (stands : Stands parser reader)
    {writes : List Bytes} (filled : ∀ buf ∈ writes, buf ≠ []) :
    (protocol.writeAll parser writes).1 = (protocol.feedAll reader writes).1 ∧
      (protocol.writeAll parser writes).2.user = (protocol.feedAll reader writes).2.user ∧
      ((protocol.feedAll reader writes).1 ≠ .finished →
        Stands (protocol.writeAll parser writes).2 (protocol.feedAll reader writes).2) := by
  induction writes generalizing parser reader with
  | nil => exact ⟨rfl, stands.user, fun _ => stands⟩
  | cons buf later ih =>
    have simulates := parseData_feed all (protocol.maxTTL + 1) stands (filled buf (.head _))
    obtain ⟨verdict, user, stands'⟩ := simulates
    rw [Protocol.writeAll, Protocol.feedAll]
    simp only [Protocol.write, verdict]
    split
    · rename_i opened
      apply ih _ fun other member => filled other (.tail _ member)
      apply stands'
      rw [opened]
      simp
    · exact ⟨rfl, user, stands'⟩

theorem turn_user (status : ParseStatus) (p p' : SubParser) (user : σ) :
    (protocol.turn status p user).2.user = (protocol.turn status p' user).2.user := by
  cases status with
  | gotoNextSubParser =>
    unfold Protocol.turn
    cases protocol.changeToNextParser user with
    | none => rfl
    | some changed =>
      obtain ⟨_ | settings, user'⟩ := changed <;> rfl
  | _ => rfl

theorem writeEOF_feedEOF {parser : Parser σ} {reader : Reader σ} (stands : Stands parser reader) :
    (protocol.writeEOF parser).user = (protocol.feedEOF reader).user := by
  obtain ⟨settings, pending, user⟩ := reader
  obtain ⟨current, user'⟩ := parser
  obtain ⟨same, ⟨p, rfl, holds⟩, bounded⟩ := stands
  dsimp only at same bounded holds
  subst same
  have configured : SubParser.settings { p with streamEnded := true } = settings := holds.configured
  simp only [Protocol.writeEOF, Protocol.write, Protocol.parseData,
    write_end protocol.parse user' holds bounded, present, configured, List.length_nil, ne_eq, not_true_eq_false,
    and_false, if_false]
  simp only [Protocol.feedEOF, Protocol.next, Protocol.read]
  exact turn_user _ _ _ _

end

/-! ## One element -/

section
variable {σ : Type} {protocol : Protocol σ} {reader : Reader σ} (mode : reader.settings.parseMode = .delimiter)
  (ends : ∀ element : Element, (protocol.next reader element.presented).1 ≠ .open)
include mode

/-- A single delimiter is found where it first occurs, however the stream is cut. -/
theorem listedElement_eq (stream : Bytes) :
    reader.settings.listedElement stream = reader.settings.firstElement stream := by
  have notSize : reader.settings.parseMode ≠ .size := by
    rw [mode]
    simp
  rw [Settings.firstElement_delimiter notSize, Settings.listedElement]
  simp only [Settings.listed, Settings.firstDelimiter, mode]

include ends

theorem feed_last (turns : Nat) {buf : Bytes} (filled : buf ≠ []) :
    protocol.feed (turns + 2) reader buf =
      match reader.settings.firstElement (reader.pending ++ buf) with
      | some element => protocol.next reader element.presented
      | none =>
        if (reader.pending ++ buf).length ≤ reader.settings.parseDataTargetSize then
          (.open, { reader with pending := reader.pending ++ buf })
        else (.failed, { reader with pending := [] }) := by
  rw [Protocol.feed, listedElement_eq mode]
  cases first : reader.settings.firstElement (reader.pending ++ buf) with
  | some element => simp only [ends, false_and, if_false]
  | none =>
    have more := List.length_pos_iff.mpr filled
    by_cases full : reader.settings.parseDataTargetSize ≤ reader.pending.length
    · have long : ¬(reader.pending ++ buf).length ≤ reader.settings.parseDataTargetSize := by
        rw [List.length_append]
        omega
      simp only [full, long, if_true, if_false]
    · simp only [full, if_false, ne_eq, List.drop_eq_nil_iff]
      by_cases fits : (reader.pending ++ buf).length ≤ reader.settings.parseDataTargetSize
      · simp only [fits, not_true_eq_false, if_false, if_true, List.take_of_length_le]
      · simp only [fits, not_false_eq_true, if_true, if_false]
        -- the bytes of the target size are waiting, and the rest of the write is refused
        have reached : ((reader.pending ++ buf).take reader.settings.parseDataTargetSize).length =
            reader.settings.parseDataTargetSize := by
          rw [List.length_take]
          omega
        have whole := List.take_append_drop reader.settings.parseDataTargetSize (reader.pending ++ buf)
        rw [Protocol.feed, listedElement_eq mode]
        simp only [whole, first, reached, Nat.le_refl, if_true]

/-- Where `parse()` does not go on, a run of writes comes to its first element. -/
theorem feedAll_last (turns : 0 < protocol.maxTTL) {writes : List Bytes} (filled : ∀ buf ∈ writes, buf ≠ [])
    (incomplete : reader.settings.firstElement reader.pending = none) :
    match reader.settings.firstElement (reader.pending ++ writes.flatten) with
    | some element => protocol.feedAll reader writes = protocol.next reader element.presented
    | none => (protocol.feedAll reader writes).1 ≠ .finished := by
  obtain ⟨ttl, count⟩ := Nat.exists_eq_succ_of_ne_zero (Nat.ne_of_gt turns)
  induction writes generalizing reader with
  | nil =>
    rw [List.flatten_nil, List.append_nil, incomplete]
    simp [Protocol.feedAll]
  | cons buf later ih =>
    have fed := feed_last mode ends ttl (filled buf (.head _))
    rw [Protocol.feedAll, count, fed, List.flatten_cons, ← List.append_assoc]
    cases first : reader.settings.firstElement (reader.pending ++ buf) with
    | some element =>
      rw [Settings.firstElement_append first]
      simp only [ends, if_false]
    | none =>
      by_cases fits : (reader.pending ++ buf).length ≤ reader.settings.parseDataTargetSize
      · simp only [fits, if_true]
        exact @ih { reader with pending := reader.pending ++ buf } mode ends
          (fun other member => filled other (.tail _ member)) first
      · rw [Settings.firstElement_of_long first (Nat.not_le.mp fits)]
        simp only [fits, if_false, reduceCtorEq, ne_eq, not_false_eq_true]

end

end Mantids.Memory.Streams
