import Mantids.Memory.ByteByByte
import Mantids.Memory.Fragmentation
import Mantids.Protocols.MimeMessage

/-! The limit of a part (`mime_sub_content.cpp`): it bounds what waits for the delimiter, not what has been
handed over. -/

set_option autoImplicit false

namespace Mantids.Memory

namespace Streams

/-- A sub parser that hands over what is no beginning of its delimiter. -/
structure Trailing (p : SubParser) : Prop where
  mode : p.parseMode = .directDelimiter
  counted : p.unparsedBuffer.Counted
  fits : p.unparsedBuffer.containerBytes ≤ p.unparsedBuffer.limits.maxSize
  positive : p.unparsedBuffer.limits.maxChunkSize ≠ 0

section
variable {σ : Type} (parse : Parse σ) (user : σ) (fresh : Fresh) {p : SubParser} (trailing : Trailing p)
  (keeps : ∀ presented, (parse user p.settings presented).2.1 = p.settings) {buf : Bytes} (filled : buf ≠ [])
include trailing keeps filled

end

/-- At most two bytes wait. -/
theorem Trickled.few {first second : UInt8} {p : SubParser} (trickled : Trickled first second p) :
    p.unparsedBuffer.chunksVector.length ≤ 2 ∧ p.pending.length ≤ 2 := by
  have kept := trickled.kept
  rw [SubParser.pending]
  generalize p.unparsedBuffer.chunksVector = chunks at kept
  generalize p.unparsedBuffer.containerBytes = bytes at kept
  cases kept <;> simp

/-- With room for three bytes the next one is accepted. -/
theorem Trickled.accepts {first second : UInt8} {p : SubParser} (trickled : Trickled first second p) (trailing : Trailing p)
    (room : 4 ≤ p.unparsedBuffer.limits.maxSize) (byte : UInt8) :
    (p.unparsedBuffer.append (p.stick [byte])).1.1 = true := by
  obtain ⟨chunks, pending⟩ := trickled.few
  have bytes : p.unparsedBuffer.containerBytes = p.pending.length := by
    rw [SubParser.pending, length_content, trailing.counted.bytes]
  have count : p.unparsedBuffer.limits.chunkCount [byte].length = 1 := by
    rw [Limits.chunkCount, trickled.maxChunkSize]
    change (1 + 65536 - 1) / 65536 = 1
    omega
  have maxChunks : p.unparsedBuffer.limits.maxChunks = 262144 := trickled.maxChunks
  obtain ⟨c, result, -⟩ := BChunks.append_appended trailing.counted trailing.positive (List.cons_ne_nil byte [])
    (by rw [List.length_singleton]; omega) (by omega)
  rw [stick_byte, result]

end Streams

end Mantids.Memory

namespace Mantids.MIME

open Memory Memory.Streams

/-- The sub parser of a part's content; the container that is written to is taken for its content. -/
structure SubContent where
  contentContainer : Bytes
  parsed : Nat

namespace SubContent

/-- What `setBoundary` and `setMaxContentSize` set. -/
def settings (maxContentSize : Fin (2 ^ 64)) (boundary : Bytes) : Settings :=
  { Message.contentSettings boundary with
    parseDataTargetSize := ⟨(maxContentSize + boundary.length + 4) % 2 ^ 64, Nat.mod_lt _ (by decide)⟩ }

theorem settings_default (boundary : Bytes) :
    settings ⟨Message.maxVarContentSize, by decide⟩ boundary = Message.contentSettings boundary := rfl

def parse : Parse SubContent := fun content settings presented =>
  match presented with
  | .element parsedBuffer delimiterFound =>
    (if delimiterFound.getD [] = [] then .getMoreData else .gotoNextSubParser, settings,
      ⟨content.contentContainer ++ parsedBuffer, content.parsed + 1⟩)
  | .direct parsedBuffer _ =>
    (.getMoreData, settings, ⟨content.contentContainer ++ parsedBuffer, content.parsed + 1⟩)

/-- The content alone. `malloc` finds other memory at each call of `parse()`. -/
def protocol (memory : Nat → Fresh) : Protocol SubContent where
  parse := parse
  changeToNextParser := fun content => some (none, content)
  fresh := fun content => memory content.parsed
  maxTTL := 4096

def parser (maxContentSize : Fin (2 ^ 64)) (boundary : Bytes) : Parser SubContent :=
  ⟨some (.new (settings maxContentSize boundary)), ⟨[], 0⟩⟩

/-! ## No more than is written -/

theorem parse_keeps (content : SubContent) (settings : Settings) (presented : Presented) :
    (parse content settings presented).2.1 = settings := by
  cases presented <;> rfl

end SubContent

/-! ## The limit -/

/-- How many of the last bytes begin the delimiter. -/
def begun (delimiter stream : Bytes) : Nat :=
  Nat.findGreatest (fun v => delimiter.take v <:+ stream) (delimiter.length - 1)

section
variable {maxVarContentSize : Fin (2 ^ 64)} {boundary stream : Bytes}

end

end Mantids.MIME
