import Mantids.Memory.SubParserCalls

/-! Bytes handed over as they arrive (`parseDirect`): the target size counts down, and nothing is taken
beyond it. -/

set_option autoImplicit false

namespace Mantids.Memory.Streams

/-- A sub parser between two writes, with so many bytes left of its target size. -/
structure Direct (p : SubParser) (left : Nat) : Prop where
  mode : p.parseMode = .direct
  chunks : p.unparsedBuffer.chunksVector = []
  bytes : p.unparsedBuffer.containerBytes = 0
  target : p.unparsedBuffer.limits.maxSize = left
  maxChunkSize : p.unparsedBuffer.limits.maxChunkSize = Limits.default.maxChunkSize

theorem direct_new {settings : Settings} (mode : settings.parseMode = .direct) :
    Direct (.new settings) settings.parseDataTargetSize := ⟨mode, rfl, rfl, rfl, rfl⟩

section
variable {σ : Type} (parse : Parse σ) (user : σ) (fresh : Fresh) {p : SubParser} {left : Nat}

theorem Direct.counted (direct : Direct p left) : p.unparsedBuffer.Counted := by
  constructor
  case bytes => rw [direct.bytes, direct.chunks]; rfl
  case word => rw [direct.bytes]; exact Nat.two_pow_pos 64

theorem Direct.sizeLeft (direct : Direct p left) : p.unparsedBuffer.getSizeLeft = left := by
  rw [BChunks.getSizeLeft, BChunks.size, direct.bytes, direct.target, if_neg (Nat.not_lt_zero left)]
  rfl

/-- What has been appended is presented, and counts down. -/
theorem present_direct (direct : Direct p left)
    (keeps : ∀ presented, (parse user p.settings presented).2.1 = p.settings) {buf taken : Bytes}
    (within : taken.length ≤ left) {c : BChunks}
    (appended : p.unparsedBuffer.append (p.stick buf) = ((true, taken.length), c)) (counted : c.Counted)
    (content : content c.chunksVector = taken) (limits : c.limits = p.unparsedBuffer.limits) :
    ∃ p', Direct p' (left - taken.length) ∧ parseDirect parse user p buf =
      let presented := .direct taken (left - taken.length)
      ⟨some taken.length, (parse user p.settings presented).1, p', (parse user p.settings presented).2.2, [presented]⟩ := by
  have size : c.size = taken.length := by rw [BChunks.size, counted.bytes, ← length_content, content]
  have room : c.getSizeLeft = left - taken.length := by
    rw [BChunks.getSizeLeft, size, limits, direct.target, if_neg (Nat.not_lt.mpr within)]
  have settings : SubParser.settings { p with unparsedBuffer := c } = p.settings := by
    simp only [SubParser.settings, limits]
  have pending : SubParser.pending { p with unparsedBuffer := c } = taken := content
  have maxChunkSize := direct.maxChunkSize
  rw [← limits] at maxChunkSize
  refine ⟨((SubParser.configure { p with unparsedBuffer := c } p.settings).clear).reduceMaxSizeBy c.size, ?_, ?_⟩
  · constructor
    case mode => exact direct.mode
    case chunks => rfl
    case bytes => rfl
    case target =>
      change p.unparsedBuffer.limits.maxSize - c.size = _
      rw [size, direct.target]
    case maxChunkSize => exact maxChunkSize
  · simp only [parseDirect, appended, Bool.true_eq_false, if_false, present, settings, pending, room, keeps]

theorem write_direct_eq (direct : Direct p left) {buf : Bytes} (filled : buf ≠ []) :
    writeIntoParser parse user fresh p buf = parseDirect parse user p buf := by
  simp only [writeIntoParser, filled, if_false, direct.mode]

theorem Direct.stick_eq (direct : Direct p left) (some : left ≠ 0) (buf : Bytes) : p.stick buf = buf.take left := by
  rw [Streams.stick_eq (by rw [direct.sizeLeft]; exact some), direct.sizeLeft]

section
variable (direct : Direct p left) (some : left ≠ 0) {buf : Bytes} (filled : buf ≠ [])
include direct some filled

theorem write_direct_full
    (full : p.unparsedBuffer.limits.maxChunks < p.unparsedBuffer.limits.chunkCount (buf.take left).length) :
    ∃ p', writeIntoParser parse user fresh p buf = failed user p' := by
  have refused : (p.unparsedBuffer.append (buf.take left)).1.1 = false := by
    apply BChunks.append_full
    · rw [direct.maxChunkSize]
      decide
    · simp [filled, some]
    · rwa [direct.chunks, List.length_nil, Nat.zero_add]
    · rw [direct.chunks]
      exact Nat.zero_le _
  rw [write_direct_eq parse user fresh direct filled]
  simp only [parseDirect, direct.stick_eq some, refused, if_true]
  exact ⟨_, rfl⟩

theorem write_direct_fits
    (fits : p.unparsedBuffer.limits.chunkCount (buf.take left).length ≤ p.unparsedBuffer.limits.maxChunks)
    (keeps : ∀ presented, (parse user p.settings presented).2.1 = p.settings) :
    ∃ p', (Direct p' (left - (buf.take left).length) ∧
      p'.unparsedBuffer.limits.maxChunks = p.unparsedBuffer.limits.maxChunks) ∧
        writeIntoParser parse user fresh p buf =
          let presented := .direct (buf.take left) (left - (buf.take left).length)
          ⟨Option.some (buf.take left).length, (parse user p.settings presented).1, p',
            (parse user p.settings presented).2.2, [presented]⟩ := by
  have within : (buf.take left).length ≤ left := List.length_take_le ..
  obtain ⟨c, result, appended⟩ := BChunks.append_appended direct.counted
    (by rw [direct.maxChunkSize]; decide) (by simp [filled, some] : buf.take left ≠ [])
    (by rw [direct.bytes, direct.target, Nat.zero_add]; exact within)
    (by rwa [direct.chunks, List.length_nil, Nat.zero_add])
  have content := appended.content
  rw [direct.chunks] at content
  obtain ⟨p', direct', presents⟩ := present_direct parse user direct keeps within
    (by rw [direct.stick_eq some]; exact result) appended.counted content appended.limits
  rw [write_direct_eq parse user fresh direct filled]
  refine ⟨p', ⟨direct', ?_⟩, presents⟩
  have kept := congrArg (fun written => written.subParser.unparsedBuffer.limits.maxChunks) presents
  simp only [parseDirect, direct.stick_eq some, result, Bool.true_eq_false, if_false, present] at kept
  rw [← kept]
  change c.limits.maxChunks = _
  rw [appended.limits]

end

end

end Mantids.Memory.Streams
