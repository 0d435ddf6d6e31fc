import Mantids.Memory.ByteByByte
import Mantids.Memory.Reader
import Mantids.Protocols.MimeMessage

/-! Messages read back from their stream. Written byte by byte none of them is: the parser
does not leave the content of the first part. -/

set_option autoImplicit false

namespace Mantids.MIME

open Memory Memory.Streams Library

namespace Message

/-- What is read of a part: its options in their order, and its content. -/
def shown (part : PartMessage) : List (Bytes × Bytes × Bytes) × Bytes :=
  (part.header.headers.entries.map fun entry => (entry.1, entry.2.origName, entry.2.origValue), part.content)

/-- The message that the variables have been added to. -/
def build (boundary : Bytes) (vars : List (Bytes × Bytes)) : Message :=
  vars.foldl (fun message var => (message.addStringVar var.1 var.2).2) (.new boundary)

/-- Names and values without the boundary, within what the parser is configured for. -/
structure Permitted (boundary : Bytes) (vars : List (Bytes × Bytes)) : Prop where
  parts : vars.length ≤ maxNumberOfParts
  names : ∀ var ∈ vars, occurrence boundary var.1 = none ∧
    (ascii "name: " ++ var.1 ++ crlf).length ≤ maxHeaderOptionSize
  values : ∀ var ∈ vars, occurrence boundary var.2 = none ∧ var.2.length ≤ maxVarContentSize

/-- However the stream is cut and whatever `malloc` finds, the message is read to its end with the same parts. -/
def RoundTrips (boundary : Bytes) (vars : List (Bytes × Bytes)) : Prop :=
  ∀ memory writes, (∀ buf ∈ writes, buf ≠ []) → writes.flatten = (build boundary vars).streamTo →
    ((protocol memory).writeAll (parser boundary) writes).1 = .finished ∧
      ((protocol memory).writeAll (parser boundary) writes).2.user.allParts.map shown =
        (build boundary vars).allParts.map shown

/-! ## Byte by byte -/

/-- The sub parsers before the end of the first content. -/
def Reads : VarStat → SubParser → Prop
  | .firstBoundary, p => p.parseMode = .delimiter
  | .headers, p => p.parseMode = .delimiter
  | .content, p => Trickled 13 10 p
  | .endpoint, _ => False

def InFirstPart (parser : Parser Message) : Prop :=
  ∃ p, parser.currentParser = some p ∧ Reads parser.user.currentState p

theorem inFirstPart_new (boundary : Bytes) : InFirstPart (parser boundary) := ⟨_, rfl, rfl⟩

theorem trickled_new (boundary : Bytes) : Trickled 13 10 (.new (contentSettings boundary)) where
  mode := rfl
  begins := ⟨45, 45, boundary, rfl⟩
  kept := .none
  maxChunks := rfl
  maxChunkSize := rfl

/-- No `parse()` sets anything of its sub parser. -/
theorem parse_settings (message : Message) (settings : Settings) (presented : Presented) :
    (parse message settings presented).2.1 = settings := by
  unfold parse
  cases presented with
  | direct _ _ => rfl
  | element parsedBuffer delimiterFound =>
    dsimp only
    cases message.currentState with
    | firstBoundary => rfl
    | content => rfl
    | headers =>
      dsimp only
      split <;> rfl
    | endpoint =>
      dsimp only
      split
      · rfl
      · split <;> rfl

section
variable (memory : Nat → Fresh) {message : Message} {p : SubParser}

/-- What a line ends or begins is still before the end of the first content. -/
theorem read_line (mode : p.parseMode = .delimiter)
    (before : message.currentState = .firstBoundary ∨ message.currentState = .headers) (parsedBuffer : Bytes) :
    let (status, settings, message') := parse message p.settings (.element parsedBuffer none)
    let (verdict, parser) := (protocol memory).turn status (p.configure settings).clear message'
    verdict = .open ∧ InFirstPart parser := by
  have configured : SubParser.clear (p.configure p.settings) = p.clear := rfl
  rcases before with state | state
  · simp only [parse, state, Protocol.turn, protocol, changeToNextParser]
    exact ⟨trivial, _, rfl, rfl⟩
  · by_cases empty : parsedBuffer = []
    · simp only [parse, state, empty, if_true, Protocol.turn, protocol, changeToNextParser]
      exact ⟨trivial, _, rfl, trickled_new _⟩
    · simp only [parse, state, empty, if_false, Protocol.turn, configured]
      exact ⟨trivial, _, rfl, mode⟩

theorem write_inFirstPart (here : Reads message.currentState p) {buf : Bytes} (small : buf.length ≤ 1) :
    let written := writeIntoParser parse message zeros p buf
    written.taken = none ∨
      let (verdict, parser) := (protocol memory).turn written.status written.subParser written.user
      verdict = .open ∧ InFirstPart parser := by
  cases state : message.currentState with
  | content =>
    rw [state] at here
    match buf, small with
    | [], _ => exact .inl (write_nothing parse message zeros (Trickled.mode here))
    | [z], _ =>
      rcases write_byte parse message here (by decide) (by decide)
          (parse_settings message p.settings) z with refused | ⟨_, p', trickled, result⟩
      · exact .inl refused
      · right
        simp only [result, parse, state, Protocol.turn, Option.getD_some, if_true]
        exact ⟨trivial, _, rfl, trickled⟩
  | endpoint =>
    rw [state] at here
    exact here.elim
  | _ =>
    rw [state] at here
    rcases write_delimiter parse message zeros here buf with
      refused | ⟨_, p', mode, result⟩ | ⟨q, _, _, mode, result⟩
    · exact .inl refused
    · right
      simp only [result, Protocol.turn]
      exact ⟨trivial, _, rfl, by rwa [state]⟩
    · right
      rw [result]
      exact read_line memory mode (by simp [state]) _

/-- A write of at most one byte does not finish, and comes no further. -/
theorem parseData_inFirstPart (turns : Nat) {parser : Parser Message} (inside : InFirstPart parser) {buf : Bytes}
    (small : buf.length ≤ 1) :
    ((protocol fun _ => zeros).parseData turns parser buf).verdict ≠ .finished ∧
      (((protocol fun _ => zeros).parseData turns parser buf).verdict = .open →
        InFirstPart ((protocol fun _ => zeros).parseData turns parser buf).parser) := by
  induction turns generalizing parser buf with
  | zero => exact ⟨by simp [Protocol.parseData], fun _ => inside⟩
  | succ turns ih =>
    obtain ⟨current, message⟩ := parser
    obtain ⟨p, rfl, here⟩ := inside
    have goes := write_inFirstPart (fun _ => zeros) here small
    have fresh : (protocol fun _ => zeros).fresh message = zeros := rfl
    have parses : (protocol fun _ => zeros).parse = parse := rfl
    simp only [Protocol.parseData, fresh, parses]
    dsimp only at goes
    generalize writeIntoParser parse message zeros p buf = written at goes
    cases taken : written.taken with
    | none => simp
    | some taken' =>
      rw [taken] at goes
      obtain ⟨opened, inside⟩ := goes.resolve_left (by simp)
      dsimp only
      generalize (protocol fun _ => zeros).turn written.status written.subParser written.user = next
        at opened inside ⊢
      obtain ⟨verdict, parser⟩ := next
      dsimp only at opened inside ⊢
      subst opened
      split
      · apply ih inside
        rw [List.length_drop]
        omega
      · exact ⟨by simp, fun _ => inside⟩

end

/-- Byte by byte nothing is read to its end. -/
theorem unfinished {parser : Parser Message} (inside : InFirstPart parser) (stream : Bytes) :
    ((protocol fun _ => zeros).writeAll parser (stream.map fun byte => [byte])).1 ≠ .finished := by
  induction stream generalizing parser with
  | nil => simp [Protocol.writeAll]
  | cons byte rest ih =>
    obtain ⟨unended, stays⟩ := parseData_inFirstPart ((protocol fun _ => zeros).maxTTL + 1) inside
      (Nat.le_refl [byte].length)
    rw [List.map_cons, Protocol.writeAll, Protocol.write]
    by_cases opened : ((protocol fun _ => zeros).parseData ((protocol fun _ => zeros).maxTTL + 1) parser
        [byte]).verdict = .open
    · rw [if_pos opened]
      exact ih (stays opened)
    · rw [if_neg opened]
      exact unended

/-- The delimiter of a content has four bytes and more, of which a parser that is written to byte
by byte keeps no more than two: no message at all is read back in every fragmentation. -/
theorem not_roundTrips (boundary : Bytes) (vars : List (Bytes × Bytes)) : ¬RoundTrips boundary vars := by
  intro trips
  have filled : ∀ buf ∈ (build boundary vars).streamTo.map fun byte => [byte], buf ≠ [] := by
    intro buf member
    obtain ⟨byte, -, rfl⟩ := List.mem_map.mp member
    simp
  obtain ⟨finished, -⟩ := trips (fun _ => zeros) _ filled (flatten_bytes _)
  exact unfinished (inFirstPart_new boundary) _ finished

/-- In one write: the boundary that stands twice after a content is not all there is before the end of a line. -/
theorem roundTrip_fails : ¬∀ boundary vars, Permitted boundary vars → RoundTrips boundary vars := by
  obtain ⟨boundary, vars, permitted, filled, failed⟩ : ∃ boundary vars, Permitted boundary vars ∧
      (build boundary vars).streamTo ≠ [] ∧
      ((protocol fun _ => zeros).writeAll (parser boundary) [(build boundary vars).streamTo]).1 = .failed := by
    refine ⟨ascii "boundary-of-more-than-twelve-bytes", [(ascii "name", ascii "value")], ?_, ?_, ?_⟩
    · exact ⟨by decide +kernel, by decide +kernel, by decide +kernel⟩
    · decide +kernel
    · decide +kernel
  intro all
  obtain ⟨finished, -⟩ := all boundary vars permitted (fun _ => zeros) [(build boundary vars).streamTo]
    (List.forall_mem_singleton.mpr filled) List.flatten_singleton
  rw [failed] at finished
  cases finished

end Message

end Mantids.MIME
