import Mantids.Memory.ElementRuns
import Mantids.Protocols.ContentLimits

/-! What a stream of chunks carries: however it is cut no more than that is delivered, and cut between its
elements no less. -/

set_option autoImplicit false

namespace Mantids.HTTP

open Memory Memory.Streams

/-- The data of the chunks that are complete in the stream. The line of a size ends within so many bytes. -/
def chunkedData (lineLimit : Nat) (stream : Bytes) : Bytes :=
  match found : Library.occurrence [13, 10] (stream.take lineLimit) with
  | none => []
  | some pos =>
    let size := Content.parseHttpChunkSize (stream.take pos)
    let data := stream.drop (pos + 2)
    if size = 2 ^ 32 - 1 ∨ size = 0 ∨ data.length < size then []
    else if data.length - size < 2 then data.take size
    else data.take size ++ chunkedData 1024 (data.drop (size + 2))
termination_by stream.length
decreasing_by
  have inside := Library.occurrence_end_le found
  rw [List.length_take, List.length_cons, List.length_singleton] at inside
  rw [List.length_drop, List.length_drop]
  omega

theorem chunkedData_found {lineLimit : Nat} {stream : Bytes} {pos : Nat}
    (found : Library.occurrence [13, 10] (stream.take lineLimit) = some pos) :
    chunkedData lineLimit stream =
      let size := Content.parseHttpChunkSize (stream.take pos)
      let data := stream.drop (pos + 2)
      if size = 2 ^ 32 - 1 ∨ size = 0 ∨ data.length < size then []
      else if data.length - size < 2 then data.take size
      else data.take size ++ chunkedData 1024 (data.drop (size + 2)) := by
  rw [chunkedData]
  split
  · rename_i missing
    rw [missing] at found
    cases found
  · rename_i pos' found'
    rw [found] at found'
    cases found'
    rfl

theorem parseHttpChunkSize_cases (parsedBuffer : Bytes) : Content.parseHttpChunkSize parsedBuffer = 2 ^ 32 - 1 ∨
    Content.parseHttpChunkSize parsedBuffer ≤ 16777216 := by
  unfold Content.parseHttpChunkSize
  dsimp only
  split
  · exact .inl rfl
  · rename_i accepted
    right
    exact Nat.le_of_not_lt fun long => accepted (.inr long)

/-! ## Between two elements -/

/-- The data of a chunk of so many bytes, if they are complete, and of the chunks behind it. -/
def carriedFrom (size : Nat) (data : Bytes) : Bytes :=
  if data.length < size then []
  else if data.length - size < 2 then data.take size
  else data.take size ++ chunkedData 1024 (data.drop (size + 2))

/-- What is still to come in the stream, for a parser between two elements. -/
def carried (content : Content) (settings : Settings) (stream : Bytes) : Bytes :=
  match content.currentMode with
  | .procModeChunkSize => chunkedData settings.parseDataTargetSize stream
  | .procModeChunkData => carriedFrom settings.parseDataTargetSize stream
  | .procModeChunkCRLF => if stream.length < 2 then [] else chunkedData 1024 (stream.drop 2)
  | .procModeContentLength | .procModeConnectionClose => []

/-- The settings that go with the mode. -/
inductive InChunks : Content → Settings → Prop where
  | size {content : Content} {settings : Settings} (mode : content.currentMode = .procModeChunkSize)
      (waits : settings.parseMode = .delimiter) (delimiter : settings.parseDelimiter = [13, 10])
      (bounded : (settings.parseDataTargetSize : Nat) ≤ 16777216) : InChunks content settings
  | data {content : Content} {settings : Settings} (mode : content.currentMode = .procModeChunkData)
      (waits : settings.parseMode = .size) (some : 0 < (settings.parseDataTargetSize : Nat))
      (bounded : (settings.parseDataTargetSize : Nat) ≤ 16777216) : InChunks content settings
  | crlf {content : Content} {settings : Settings} (mode : content.currentMode = .procModeChunkCRLF)
      (waits : settings.parseMode = .size) (two : (settings.parseDataTargetSize : Nat) = 2) : InChunks content settings

section
variable {content : Content} {settings : Settings} (inside : InChunks content settings) {stream : Bytes}
include inside

theorem InChunks.buffers : settings.parseMode.Buffers ∧ settings.parseMode ≠ .multiDelimiter := by
  cases inside with
  | size _ waits _ _ => rw [waits]; exact ⟨trivial, by decide⟩
  | data _ waits _ _ => rw [waits]; exact ⟨trivial, by decide⟩
  | crlf _ waits _ => rw [waits]; exact ⟨trivial, by decide⟩

theorem InChunks.bounded : (settings.parseDataTargetSize : Nat) ≤ 16777216 := by
  cases inside with
  | size _ _ _ bounded => exact bounded
  | data _ _ _ bounded => exact bounded
  | crlf _ _ two => omega

omit inside in
theorem read_of_parse {presented : Presented} {status : ParseStatus} {settings' : Settings} {content' : Content}
    (parsed : Content.parse content settings presented = (status, settings', content')) :
    Content.protocol.read content settings presented = Content.protocol.turn status (.new settings') content' := by
  have parses : Content.protocol.parse = Content.parse := rfl
  simp only [Protocol.read, parses, parsed]

/-- What an element leads to: the next one with what it has delivered, or the end. -/
theorem read_chunks {element : Element} (complete : settings.firstElement stream = some element) :
    (∃ settings' content', Content.protocol.read content settings element.presented =
        (.open, ⟨some (.new settings'), content'⟩) ∧ InChunks content' settings' ∧
        content.outStream <+: content'.outStream ∧
        content.outStream ++ carried content settings stream =
          content'.outStream ++ carried content' settings' (stream.drop element.length)) ∨
      ∃ verdict current, Content.protocol.read content settings element.presented = (verdict, ⟨current, content⟩) ∧
        verdict ≠ .open ∧ carried content settings stream = [] := by
  cases inside with
  | size mode waits delimiter bounded =>
    rw [Settings.firstElement_delimiter (by rw [waits]; decide)] at complete
    simp only [Settings.firstDelimiter, waits, delimiter, Option.map_map, Option.map_eq_some_iff] at complete
    obtain ⟨pos, found, same⟩ := complete
    obtain rfl : ⟨stream.take pos, none, pos + 2⟩ = element := same
    have whole := chunkedData_found found
    have carries : carried content settings stream = chunkedData settings.parseDataTargetSize stream := by
      simp only [carried, mode]
    rw [carries, whole]
    rcases parseHttpChunkSize_cases (stream.take pos) with none | small
    · right
      have parsed : Content.parse content settings (.element (stream.take pos) Option.none) =
          (.error, settings, content) := by
        simp only [Content.parse, mode]
        exact if_pos none
      exact ⟨_, _, read_of_parse parsed, by decide, if_pos (.inl none)⟩
    · have other : ¬Content.parseHttpChunkSize (stream.take pos) = 2 ^ 32 - 1 := by omega
      by_cases last : Content.parseHttpChunkSize (stream.take pos) = 0
      · right
        have parsed : Content.parse content settings (.element (stream.take pos) none) =
            (.gotoNextSubParser, settings, content) := by
          simp only [Content.parse, mode]
          exact (if_neg other).trans (if_neg (Nat.not_lt.mpr (Nat.le_of_eq last)))
        exact ⟨_, _, read_of_parse parsed, by decide, if_pos (.inr (.inl last))⟩
      · left
        obtain ⟨target, size, parsed⟩ : ∃ target : Fin (2 ^ 64),
            (target : Nat) = Content.parseHttpChunkSize (stream.take pos) ∧
            Content.parse content settings (.element (stream.take pos) none) =
              (.getMoreData, exactly settings target, { content with currentMode := .procModeChunkData }) := by
          refine ⟨⟨_, Nat.mod_lt _ (by decide)⟩, Nat.mod_eq_of_lt (by omega), ?_⟩
          simp only [Content.parse, mode]
          exact (if_neg other).trans (if_pos (Nat.pos_of_ne_zero last))
        refine ⟨_, _, read_of_parse parsed, .data rfl rfl ?_ ?_, List.prefix_refl _, ?_⟩
        · dsimp only [exactly]
          omega
        · dsimp only [exactly]
          omega
        · congr 1
          change _ = carriedFrom target (stream.drop (pos + 2))
          rw [size, carriedFrom]
          by_cases short : (stream.drop (pos + 2)).length < Content.parseHttpChunkSize (stream.take pos)
          · rw [if_pos (.inr (.inr short)), if_pos short]
          · rw [if_neg (by omega), if_neg short]
  | data mode waits some bounded =>
    rw [Settings.firstElement_size waits, Option.ite_none_right_eq_some] at complete
    obtain ⟨⟨-, long⟩, same⟩ := complete
    cases same
    left
    have parsed : Content.parse content settings (.element (stream.take settings.parseDataTargetSize) none) =
        (.getMoreData, exactly settings ⟨2, by decide⟩,
          { content with currentMode := .procModeChunkCRLF,
                         outStream := content.outStream ++ stream.take settings.parseDataTargetSize }) := by
      simp only [Content.parse, mode, Presented.parsedBuffer]
      rfl
    refine ⟨_, _, read_of_parse parsed, .crlf rfl rfl rfl, List.prefix_append _ _, ?_⟩
    simp only [carried, mode, carriedFrom, List.append_assoc, List.length_drop, List.drop_drop]
    congr 1
    rw [if_neg (Nat.not_lt.mpr long)]
    split
    · rw [List.append_nil]
    · rfl
  | crlf mode waits two =>
    rw [Settings.firstElement_size waits, Option.ite_none_right_eq_some] at complete
    obtain ⟨⟨-, long⟩, same⟩ := complete
    cases same
    left
    have parsed : Content.parse content settings (.element (stream.take settings.parseDataTargetSize) none) =
        (.getMoreData, nextSize settings, { content with currentMode := .procModeChunkSize }) := by
      simp only [Content.parse, mode]
      rfl
    refine ⟨_, _, read_of_parse parsed, .size rfl rfl rfl ?_, List.prefix_refl _, ?_⟩
    · dsimp only [nextSize]
      decide
    · simp only [carried, mode]
      rw [two] at long ⊢
      rw [if_neg (Nat.not_lt.mpr long)]
      rfl

end

/-! ## A run over any pieces -/

theorem elementwise_chunks : Elementwise Content.protocol InChunks where
  buffers _ _ inside := inside.buffers
  keeps content settings stream element parser inside complete read := by
    rcases read_chunks inside complete with ⟨settings', content', goes, inside', -, -⟩ | ⟨verdict, current, stops, ended, -⟩
    · rw [goes] at read
      cases read
      exact ⟨settings', rfl, inside'⟩
    · rw [stops] at read
      cases read
      exact absurd rfl ended

/-- A parser of chunks between two writes, and what will have been delivered if all goes well. -/
structure Expects (parser : Parser Content) (rest expected : Bytes) : Prop where
  current : ∃ p, parser.currentParser = some p ∧ Waiting p ∧ InChunks parser.user p.settings ∧
    expected = parser.user.outStream ++ carried parser.user p.settings (p.pending ++ rest)

/-- What a write to such a parser comes to. -/
structure Sound (parser : Parser Content) (rest expected : Bytes) (parsed : Verdict × Parser Content) : Prop where
  grows : parser.user.outStream <+: parsed.2.user.outStream
  bounded : parsed.2.user.outStream <+: expected
  expects : parsed.1 = .open → Expects parsed.2 rest expected

section
variable {content : Content} {settings : Settings} (inside : InChunks content settings) {stream : Bytes}
include inside

/-- An element is complete on its own. -/
theorem firstElement_take {element : Element} (complete : settings.firstElement stream = some element) :
    settings.firstElement (stream.take element.length) = some element ∧ 0 < element.length := by
  have single : settings.parseMode = .delimiter ∧ settings.parseDelimiter = [13, 10] ∨
      settings.parseMode = .size ∧ 0 < (settings.parseDataTargetSize : Nat) := by
    cases inside with
    | size _ waits delimiter _ => exact .inl ⟨waits, delimiter⟩
    | data _ waits some _ => exact .inr ⟨waits, some⟩
    | crlf _ waits two => exact .inr ⟨waits, by omega⟩
  rcases single with ⟨waits, delimiter⟩ | ⟨waits, some⟩
  · rw [Settings.firstElement_delimiter (by rw [waits]; decide)] at complete ⊢
    simp only [Settings.firstDelimiter, waits, delimiter, Option.map_map, Option.map_eq_some_iff] at complete ⊢
    obtain ⟨pos, found, same⟩ := complete
    obtain rfl : ⟨stream.take pos, none, pos + 2⟩ = element := same
    have ends := Library.occurrence_take_eq_some_iff.mp found
    refine ⟨⟨pos, ?_, ?_⟩, Nat.succ_pos _⟩
    · rw [List.take_take, Nat.min_comm, ← List.take_take]
      apply Library.occurrence_take_eq_some_iff.mpr
      exact ⟨found, Nat.lt_add_of_pos_right (by decide), Nat.le_refl _⟩
    · simp only [Function.comp, Found.element, List.take_take, Nat.min_eq_left (Nat.le_add_right pos 2)]
      rfl
  · rw [Settings.firstElement_size waits, Option.ite_none_right_eq_some] at complete
    obtain ⟨⟨filled, long⟩, same⟩ := complete
    cases same
    refine ⟨?_, some⟩
    have whole : (stream.take settings.parseDataTargetSize).length = settings.parseDataTargetSize := by
      rw [List.length_take, Nat.min_eq_left long]
    have nonempty : stream.take settings.parseDataTargetSize ≠ [] := List.ne_nil_of_length_pos (by omega)
    rw [Settings.firstElement_size waits, if_pos ⟨nonempty, Nat.le_of_eq whole.symm⟩, List.take_take, Nat.min_self]

omit inside in
/-- A write of just an element to a new sub parser. -/
theorem write_whole {σ : Type} (parse : Parse σ) (user : σ) (fresh : Fresh) {buf : Bytes} (filled : buf ≠ [])
    (mode : settings.parseMode = .delimiter ∨ settings.parseMode = .size)
    (bounded : (settings.parseDataTargetSize : Nat) ≤ 16777216) {element : Element}
    (complete : settings.firstElement buf = some element) (all : element.length = buf.length) :
    writeIntoParser parse user fresh (.new settings) buf = delivered parse user settings element.presented buf.length := by
  have buffers : settings.parseMode.Buffers := by
    rcases mode with mode | mode <;> rw [mode] <;> trivial
  have waiting := waiting_new buffers
  have bound := (Settings.firstElement_length_le complete).2
  have some := List.length_pos_of_ne_nil filled
  have target : (SubParser.new settings).unparsedBuffer.getSizeLeft = settings.parseDataTargetSize :=
    if_neg (Nat.not_lt_zero _)
  have left : (SubParser.new settings).unparsedBuffer.getSizeLeft ≠ 0 := by omega
  have fits : buf.take (SubParser.new settings).unparsedBuffer.getSizeLeft = buf := List.take_of_length_le (by omega)
  have room : HasRoom (.new settings) buf := by
    rw [HasRoom, fits]
    change 0 + (buf.length + 65536 - 1) / 65536 ≤ 262144
    omega
  have pending : (SubParser.new settings).pending = [] := rfl
  rcases mode with mode | mode
  · obtain ⟨c, appended, result⟩ := parseUpTo_room parse user waiting filled
      (fun c => (c.find settings.parseDelimiter).map fun pos => ⟨pos, settings.parseDelimiter.length, none⟩) none left room
    have content : content c.chunksVector = buf := by
      rw [appended.content, fits]
      rfl
    rw [Settings.firstElement_delimiter (by rw [mode]; decide), List.take_of_length_le (by omega)] at complete
    simp only [Settings.firstDelimiter, mode, Option.map_map, Option.map_eq_some_iff] at complete
    obtain ⟨pos, found, same⟩ := complete
    obtain rfl : ⟨buf.take pos, none, pos + settings.parseDelimiter.length⟩ = element := same
    have dispatched : writeIntoParser parse user fresh (.new settings) buf =
        parseUpTo parse user (fun c => (c.find settings.parseDelimiter).map fun pos =>
          ⟨pos, settings.parseDelimiter.length, none⟩) none (.new settings) buf := by
      have dispatch : (SubParser.new settings).parseMode = .delimiter := mode
      simp only [writeIntoParser, filled, if_false, dispatch]
      rfl
    dsimp only at all bound
    have taken := @bytesToDisplace_add pos settings.parseDelimiter.length 0 (Nat.zero_le _) (by omega)
    rw [Nat.zero_add] at taken
    rw [dispatched, result, BChunks.find_eq appended.counted, content, found, pending]
    dsimp only [Option.map]
    rw [List.length_nil, taken, all]
    rfl
  · obtain ⟨c, appended, result⟩ := parseBySize_room parse user waiting filled left room
    rw [Settings.firstElement_size mode, Option.ite_none_right_eq_some] at complete
    obtain ⟨⟨-, long⟩, same⟩ := complete
    cases same
    have dispatched : writeIntoParser parse user fresh (.new settings) buf = parseBySize parse user (.new settings) buf := by
      have dispatch : (SubParser.new settings).parseMode = .size := mode
      simp only [writeIntoParser, filled, if_false, dispatch]
    rw [dispatched, result, pending, List.nil_append, fits, if_pos]
    · rfl
    · exact long

/-- Written on its own, an element is read, and nothing left. -/
theorem write_element {element : Element} (complete : settings.firstElement stream = some element) {verdict : Verdict}
    {parser : Parser Content} (read : Content.protocol.read content settings element.presented = (verdict, parser)) :
    (Content.protocol.write ⟨some (.new settings), content⟩ (stream.take element.length)).verdict = verdict ∧
      (Content.protocol.write ⟨some (.new settings), content⟩ (stream.take element.length)).parser = parser := by
  obtain ⟨own, some⟩ := firstElement_take inside complete
  have within := (Settings.firstElement_length_le complete).1
  have length : (stream.take element.length).length = element.length := by rw [List.length_take, Nat.min_eq_left within]
  have filled : stream.take element.length ≠ [] := List.ne_nil_of_length_pos (by omega)
  have mode : settings.parseMode = .delimiter ∨ settings.parseMode = .size := by
    cases inside with
    | size _ waits _ _ => exact .inl waits
    | data _ waits _ _ => exact .inr waits
    | crlf _ waits _ => exact .inr waits
  have result := write_whole Content.protocol.parse content (Content.protocol.fresh content) filled mode inside.bounded own
    length.symm
  rw [Protocol.write, parseData_delivered Content.protocol Content.protocol.maxTTL result read,
    if_neg (fun both => both.2 rfl)]
  exact ⟨rfl, rfl⟩

end

end Mantids.HTTP
