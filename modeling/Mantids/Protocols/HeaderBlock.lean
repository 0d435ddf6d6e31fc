import Mantids.Memory.DirectDelimiter
import Mantids.Memory.LineProtocols
import Mantids.Protocols.HeaderLines

/-! A header block by itself (`mime_sub_header.cpp`): line by line up to the empty one, and nothing behind it. -/

set_option autoImplicit false

namespace Mantids.MIME

open Memory Memory.Streams Library

/-- What the reader can take for a line that is not the last. -/
structure IsLine (line : Bytes) : Prop where
  filled : line ≠ []
  unbroken : ¬crlf <:+: line

/-- A line break ends a line only where it is. -/
theorem occurrence_crlf {text : Bytes} (unbroken : ¬crlf <:+: text) (later : Bytes) :
    occurrence crlf (text ++ crlf ++ later) = some text.length :=
  occurrence_pair (by decide) unbroken later

/-- How long a line may be with its line break (`setMaxOptionSize`). An empty one fits, and the chunks of a container
suffice for it. -/
structure LineLimit where
  size : Fin (2 ^ 64)
  lineBreak : crlf.length ≤ size
  chunks : size ≤ Limits.default.maxChunks

/-- Of the constructor. -/
def LineLimit.default : LineLimit := ⟨⟨8 * 1024, Message.headerLine_word⟩, by decide, by decide⟩

/-- The settings with another limit. -/
def LineLimit.settings (limit : LineLimit) : Settings :=
  { MIMESubHeader.settings with parseDataTargetSize := limit.size }

theorem LineLimit.settings_default : LineLimit.default.settings = MIMESubHeader.settings := rfl

namespace MIMESubHeader

section
variable (random : Nat → RandomString) (limit : LineLimit)

/-- A parser for one block. -/
def protocol : Protocol MIMESubHeader where
  parse := fun header settings presented =>
    let (status, header) := header.parse random presented.parsedBuffer
    (status, settings, header)
  changeToNextParser := fun header => some (none, header)
  fresh := fun _ size => Vector.replicate size 0
  maxTTL := 4096

/-- Of an empty block. -/
def parser (maxOptions : Nat) : Parser MIMESubHeader :=
  ⟨some (.new limit.settings), { new with maxOptions := maxOptions }⟩

theorem line_settings : limit.settings.Line := ⟨rfl, Nat.lt_of_lt_of_le (by decide) limit.lineBreak, limit.chunks⟩

theorem lines_protocol : (protocol random).Lines :=
  ⟨fun _ _ _ line => line, fun _ _ _ impossible => by cases impossible⟩

theorem bounded_protocol : (protocol random).Bounded :=
  (lines_protocol random).bounded fun _ _ _ bounded => bounded

theorem firstElement_line {line : Bytes} (unbroken : ¬crlf <:+: line) (later : Bytes) :
    limit.settings.firstElement (line ++ crlf ++ later) =
      if line.length + crlf.length ≤ limit.size then some ⟨line, none, line.length + crlf.length⟩ else none :=
  (line_settings limit).firstElement_of_occurrence (fun impossible => by cases impossible)
    (occurrence_crlf unbroken later)

theorem read_line (header : MIMESubHeader) {line : Bytes} (filled : line ≠ []) :
    (protocol random).read header limit.settings (.element line none) =
      (.open, ⟨some (.new limit.settings), header.parseOptionValue random line⟩) := by
  simp only [Protocol.read, protocol, Presented.parsedBuffer, MIMESubHeader.parse, filled, if_false, Protocol.turn]

theorem read_end (header : MIMESubHeader) :
    (protocol random).read header limit.settings (.element [] none) = (.finished, ⟨none, header⟩) := rfl

/-- The bytes of a block. -/
def blockOf (lines : List Bytes) : Bytes := lines.flatMap (· ++ crlf) ++ crlf

theorem blockOf_cons (line : Bytes) (rest : List Bytes) : blockOf (line :: rest) = line ++ crlf ++ blockOf rest := by
  simp only [blockOf, List.flatMap_cons, List.append_assoc]

theorem blockOf_ne_nil (lines : List Bytes) : blockOf lines ≠ [] :=
  List.append_ne_nil_of_right_ne_nil _ (by decide)

/-- One element for each line and the empty one. -/
theorem spans_lines {lines : List Bytes}
    (each : ∀ line ∈ lines, IsLine line ∧ line.length + crlf.length ≤ limit.size) (header : MIMESubHeader) (later : Bytes) :
    Spans (protocol random) (lines.length + 1) (blockOf lines).length header limit.settings (blockOf lines ++ later)
      (.finished, lines.foldl (parseOptionValue random) header) := by
  induction lines generalizing header with
  | nil =>
    have complete := @firstElement_line limit [] (by decide) later
    rw [if_pos (by simpa using limit.lineBreak)] at complete
    exact .last (line_settings limit).small complete (read_end random limit header)
      (fun impossible => by cases impossible)
  | cons line rest ih =>
    rw [List.forall_mem_cons] at each
    have complete := firstElement_line limit each.1.1.unbroken (blockOf rest ++ later)
    rw [if_pos each.1.2] at complete
    rw [blockOf_cons, List.append_assoc (line ++ crlf), List.length_append]
    have length : (line ++ crlf).length = line.length + crlf.length := List.length_append
    rw [length]
    apply Spans.next (line_settings limit).small complete (read_line random limit header each.1.1.filled)
    rw [List.drop_left' (by simp)]
    exact ih each.2 (header.parseOptionValue random line)

/-- However it is cut, a block of lines that are short enough is read up to its empty line, if there are turns for
it. -/
theorem run_lines {lines : List Bytes}
    (each : ∀ line ∈ lines, IsLine line ∧ line.length + crlf.length ≤ limit.size) (few : lines.length ≤ 4096)
    (maxOptions : Nat) {writes : List Bytes} (filled : ∀ buf ∈ writes, buf ≠ []) {later : Bytes}
    (flat : writes.flatten = blockOf lines ++ later) :
    ((protocol random).run (parser limit maxOptions) writes).verdict = .finished ∧
      ((protocol random).run (parser limit maxOptions) writes).user =
        lines.foldl (parseOptionValue random) { new with maxOptions := maxOptions } ∧
      ((protocol random).run (parser limit maxOptions) writes).consumed = (blockOf lines).length := by
  have spans := spans_lines random limit each { new with maxOptions := maxOptions } later
  rw [← flat] at spans
  have turns : (protocol random).maxTTL = 4096 := rfl
  obtain ⟨verdict, user, consumed⟩ :=
    run_spans (by omega) (holds_new (line_settings limit).small.buffers) filled spans
  rw [List.length_nil, Nat.zero_add] at consumed
  exact ⟨verdict, user, consumed⟩

/-! ## What is read to an end -/

/-- What is presented has no line break. -/
theorem unbroken_of_firstElement {stream : Bytes} {element : Element}
    (complete : limit.settings.firstElement stream = some element) :
    ∃ text, element.presented = .element text none ∧ ¬crlf <:+: text := by
  have notSize : limit.settings.parseMode ≠ .size := (fun impossible => by cases impossible)
  rw [Settings.firstElement_delimiter notSize] at complete
  simp only [Settings.firstDelimiter, show limit.settings.parseMode = .delimiter from rfl, Option.map_map] at complete
  obtain ⟨pos, found, rfl⟩ := Option.map_eq_some_iff.mp complete
  refine ⟨stream.take pos, rfl, ?_⟩
  exact not_infix_take_of_occurrence (by decide) (occurrence_take_eq_some_iff.mp found).1

/-- What lines without a line break keep holds of a block that is read to its end. -/
theorem keeps_of_completes {Keeps : MIMESubHeader → Prop}
    (step : ∀ header line, IsLine line → Keeps header → Keeps (header.parseOptionValue random line)) {n : Nat}
    {header header' : MIMESubHeader} {stream : Bytes}
    (completes : Completes (protocol random) n header limit.settings stream (.finished, header'))
    (kept : Keeps header) : Keeps header' := by
  generalize same : limit.settings = current at completes
  generalize ended : (Verdict.finished, header') = final at completes
  induction completes with
  | @last user _ _ element verdict parser _ complete stops notOpen =>
    subst same
    obtain ⟨text, presented, -⟩ := unbroken_of_firstElement limit complete
    rw [presented] at stops
    by_cases empty : text = []
    · subst empty
      rw [read_end] at stops
      cases stops
      cases ended
      exact kept
    · rw [read_line random limit user empty] at stops
      cases stops
      exact absurd rfl notOpen
  | @next n user user' _ settings' _ element _ _ complete goes rest ih =>
    subst same
    obtain ⟨text, presented, unbroken⟩ := unbroken_of_firstElement limit complete
    rw [presented] at goes
    by_cases empty : text = []
    · subst empty
      rw [read_end] at goes
      cases goes
    · rw [read_line random limit user empty] at goes
      simp only [Prod.mk.injEq, Parser.mk.injEq, Option.some.injEq, true_and] at goes
      obtain ⟨kind, rfl⟩ := goes
      have configured := congrArg SubParser.settings kind
      rw [SubParser.settings_new, SubParser.settings_new] at configured
      exact ih (step user text ⟨empty, unbroken⟩ kept) configured ended

/-- Lines that are read to an end are short, and what is made of them is known. -/
theorem of_completes_lines {lines : List Bytes} (each : ∀ line ∈ lines, IsLine line) {header : MIMESubHeader}
    {later : Bytes} {n : Nat} {final : Verdict × MIMESubHeader}
    (completes : Completes (protocol random) n header limit.settings (blockOf lines ++ later) final) :
    (∀ line ∈ lines, line.length + crlf.length ≤ limit.size) ∧
      final = (.finished, lines.foldl (parseOptionValue random) header) := by
  induction lines generalizing header n with
  | nil =>
    have complete := @firstElement_line limit [] (by decide) later
    rw [if_pos (by simpa using limit.lineBreak)] at complete
    have last := completes.of_last complete (read_end random limit header) (fun impossible => by cases impossible)
    exact ⟨List.forall_mem_nil _, last⟩
  | cons line rest ih =>
    rw [List.forall_mem_cons] at each
    have complete := firstElement_line limit each.1.unbroken (blockOf rest ++ later)
    rw [blockOf_cons, List.append_assoc (line ++ crlf)] at completes
    obtain ⟨-, element, some⟩ := completes.small
    rw [complete, Option.ite_none_right_eq_some] at some
    rw [if_pos some.1] at complete
    obtain ⟨m, completes⟩ := completes.of_next complete (read_line random limit header each.1.filled)
    rw [List.drop_left' (by simp)] at completes
    obtain ⟨short, same⟩ := ih each.2 completes
    exact ⟨List.forall_mem_cons.mpr ⟨some.1, short⟩, same⟩

/-- What is read to an end in one write. -/
theorem completes_of_run_single {stream : Bytes} (filled : stream ≠ []) (maxOptions : Nat)
    (finished : ((protocol random).run (parser limit maxOptions) [stream]).verdict = .finished) :
    ∃ n, Completes (protocol random) n { new with maxOptions := maxOptions } limit.settings stream
      (.finished, ((protocol random).run (parser limit maxOptions) [stream]).user) := by
  have same : ((protocol random).run (parser limit maxOptions) [stream]).verdict =
      ((protocol random).write (parser limit maxOptions) stream).verdict ∧
      ((protocol random).run (parser limit maxOptions) [stream]).user =
        ((protocol random).write (parser limit maxOptions) stream).parser.user := by
    rw [Protocol.run, Parsed.followed]
    split
    case isTrue goes => exact ⟨goes.symm, rfl⟩
    case isFalse _ => exact ⟨rfl, rfl⟩
  rw [same.1] at finished
  have whole : (protocol random).writeAll (parser limit maxOptions) [stream] =
      (.finished, ((protocol random).write (parser limit maxOptions) stream).parser) := by
    rw [Protocol.writeAll, if_neg (by rw [finished]; decide), finished]
  obtain ⟨n, completes⟩ := completes_of_finished (lines_protocol random) (bounded_protocol random)
    (line_settings limit) (fun buf member => by rwa [List.mem_singleton.mp member]) whole
  rw [List.flatten_singleton] at completes
  exact ⟨n, same.2 ▸ completes⟩

/-- Written at once, a block that is read to an end is one of few, short lines. -/
theorem of_run_single {lines : List Bytes} (each : ∀ line ∈ lines, IsLine line) (maxOptions : Nat)
    (finished : ((protocol random).run (parser limit maxOptions) [blockOf lines]).verdict = .finished) :
    (∀ line ∈ lines, line.length + crlf.length ≤ limit.size) ∧ lines.length ≤ 4096 := by
  obtain ⟨n, completes⟩ := completes_of_run_single random limit (blockOf_ne_nil lines) maxOptions finished
  rw [← List.append_nil (blockOf lines)] at completes
  have short := (of_completes_lines random limit each completes).1
  refine ⟨short, ?_⟩
  by_contra many
  have spans := spans_lines random limit (fun line member => ⟨each line member, short line member⟩)
    { new with maxOptions := maxOptions } []
  rw [List.append_nil] at spans
  have turns : (protocol random).maxTTL = 4096 := rfl
  have expired := parseData_expires ((protocol random).maxTTL + 1) (by omega)
    (holds_new (line_settings limit).small.buffers) (blockOf_ne_nil lines) spans
  have written : ((protocol random).write (parser limit maxOptions) (blockOf lines)).verdict = .expired := expired
  rw [Protocol.run, Parsed.followed, if_neg (by rw [written]; decide)] at finished
  rw [written] at finished
  cases finished

end

end MIMESubHeader

end Mantids.MIME
