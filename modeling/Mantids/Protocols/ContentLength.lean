import Mantids.Protocols.ContentLimits

/-! A body of an announced length (`common_content.cpp`), down to the container that it is appended to. -/

set_option autoImplicit false

namespace Mantids.HTTP

open Memory Memory.Streams

/-! ## The container -/

/-- `copyToSOUsingCleanVector` into another container: the copy ends with the first chunk that is refused. -/
def copyToContainer : List Bytes → BChunks → BChunks
  | [], bc => bc
  | chunk :: rest, bc =>
    let (bytesAppended, bc) := bc.append chunk
    if bytesAppended.1 then copyToContainer rest bc else bc

/-- `appendTo` of bytes that were written to an empty buffer. Nobody looks at what it returns. -/
def appendParsed (bc : BChunks) (parsedBuffer : Bytes) : BChunks := copyToContainer (BChunks.chunksOf parsedBuffer) bc

section
variable {bc : BChunks} {chunk : Bytes} (whole : Whole bc) (filled : chunk ≠ [])
  (word : (content bc.chunksVector).length + chunk.length < 2 ^ 64)
include whole filled word

theorem append_chunk (short : chunk.length ≤ Limits.default.maxChunkSize)
    (room : bc.chunksVector.length < Limits.default.maxChunks) :
    (bc.append chunk).1.1 = true ∧ content (bc.append chunk).2.chunksVector = content bc.chunksVector ++ chunk ∧
      (bc.append chunk).2.chunksVector.length = bc.chunksVector.length + 1 := by
  have counted := whole.coherent.isCounted
  have bytes : bc.containerBytes = (content bc.chunksVector).length := by rw [counted.bytes, length_content]
  have maxSize : (bc.limits.maxSize : Nat) = 2 ^ 64 - 1 := by rw [whole.limits]; rfl
  have one : bc.limits.chunkCount chunk.length = 1 := by
    have some := List.length_pos_of_ne_nil filled
    have size : Limits.default.maxChunkSize = 65536 := rfl
    rw [whole.limits, BChunks.chunkCount_cons (by decide) some, Nat.sub_eq_zero_of_le short,
      BChunks.chunkCount_zero (by decide)]
  obtain ⟨c, result, appended⟩ := BChunks.append_appended counted (by rw [whole.limits]; decide) filled
    (by omega) (by rw [one, whole.limits]; exact room)
  rw [result]
  exact ⟨rfl, appended.content, by rw [appended.chunks, one]⟩

theorem append_chunk_full (full : bc.chunksVector.length = Limits.default.maxChunks) : bc.append chunk = ((false, 0), bc) := by
  have counted := whole.coherent.isCounted
  have bytes : bc.containerBytes = (content bc.chunksVector).length := by rw [counted.bytes, length_content]
  have maxSize : (bc.limits.maxSize : Nat) = 2 ^ 64 - 1 := by rw [whole.limits]; rfl
  have sum : overflowSum chunk.length bc.containerBytes = false := decide_eq_false (by omega)
  have none : bc.limits.maxChunks - bc.chunksVector.length = 0 := by rw [whole.limits, full, Nat.sub_self]
  simp only [BChunks.append, BChunks.insert, BChunks.append2, BChunks.size, sum, filled, none, if_false, Bool.false_eq_true]
  rw [if_neg (by omega)]
  obtain ⟨byte, rest, rfl⟩ := List.exists_cons_of_ne_nil filled
  rfl

end

/-- What a container holds after a copy: as many of the chunks as it had room for. -/
structure Copied (bc : BChunks) (chunks : List Bytes) (copied : BChunks) : Prop where
  whole : Whole copied
  content : content copied.chunksVector =
    content bc.chunksVector ++ (chunks.take (Limits.default.maxChunks - bc.chunksVector.length)).flatten
  length : copied.chunksVector.length = min Limits.default.maxChunks (bc.chunksVector.length + chunks.length)

theorem copied_copyToContainer {chunks : List Bytes} {bc : BChunks} (whole : Whole bc)
    (each : ∀ chunk ∈ chunks, chunk ≠ [] ∧ chunk.length ≤ Limits.default.maxChunkSize)
    (word : (content bc.chunksVector).length + chunks.flatten.length < 2 ^ 64)
    (below : bc.chunksVector.length ≤ Limits.default.maxChunks) :
    Copied bc chunks (copyToContainer chunks bc) := by
  induction chunks generalizing bc with
  | nil => exact ⟨whole, by simp [copyToContainer], by simp only [copyToContainer, List.length_nil]; omega⟩
  | cons chunk rest ih =>
    rw [List.forall_mem_cons] at each
    rw [List.flatten_cons, List.length_append] at word
    rcases Nat.lt_or_eq_of_le below with room | full
    · obtain ⟨taken, holds, length⟩ := append_chunk whole each.1.1 (by omega) each.1.2 room
      have later := ih (whole_append whole chunk) each.2 (by rw [holds, List.length_append]; omega) (by omega)
      obtain ⟨more, turns⟩ : ∃ more, Limits.default.maxChunks - bc.chunksVector.length = more + 1 :=
        ⟨Limits.default.maxChunks - bc.chunksVector.length - 1, by omega⟩
      simp only [copyToContainer, taken, if_true]
      constructor
      case whole => exact later.whole
      case content =>
        rw [later.content, holds, length, turns, List.take_succ_cons, List.flatten_cons, List.append_assoc]
        congr 4
        omega
      case length =>
        rw [later.length, length, List.length_cons]
        omega
    · simp only [copyToContainer, append_chunk_full whole each.1.1 (by omega) full, Bool.false_eq_true, if_false]
      refine ⟨whole, ?_, ?_⟩
      · rw [full, Nat.sub_self]
        simp
      · rw [List.length_cons]
        omega

theorem Copied.append {bc between copied : BChunks} {first second : List Bytes} (one : Copied bc first between)
    (two : Copied between second copied) : Copied bc (first ++ second) copied where
  whole := two.whole
  content := by
    rw [two.content, one.content, one.length, List.take_append, List.flatten_append, List.append_assoc]
    congr 4
    omega
  length := by
    rw [two.length, one.length, List.length_append]
    omega

/-! ## The chunks of a write -/

/-- A piece whose chunks are all made. -/
def Made (piece : Bytes) : Prop := Limits.default.chunkCount piece.length ≤ Limits.default.maxChunks

theorem chunksOf_each (piece : Bytes) :
    ∀ chunk ∈ BChunks.chunksOf piece, chunk ≠ [] ∧ chunk.length ≤ Limits.default.maxChunkSize := by
  intro chunk member
  refine ⟨BChunks.chunksOf_filled piece chunk member, ?_⟩
  obtain ⟨made, inside, rfl⟩ := List.mem_map.mp member
  have whole := whole_held [piece]
  have each := whole.sized.each made inside
  rw [whole.limits] at each
  exact each

theorem chunksOf_made {piece : Bytes} (filled : piece ≠ []) (word : piece.length < 2 ^ 64) (made : Made piece) :
    (BChunks.chunksOf piece).flatten = piece ∧
      (BChunks.chunksOf piece).length = Limits.default.chunkCount piece.length := by
  have counted : BChunks.Counted (.empty .default) := ⟨rfl, Nat.two_pow_pos 64⟩
  have maxSize : (Limits.default.maxSize : Nat) = 2 ^ 64 - 1 := rfl
  obtain ⟨c, result, appended⟩ := BChunks.append_appended counted (by decide) filled
    (by change 0 + piece.length ≤ Limits.default.maxSize; omega)
    (by change 0 + Limits.default.chunkCount piece.length ≤ Limits.default.maxChunks; rw [Nat.zero_add]; exact made)
  rw [BChunks.chunksOf, result]
  refine ⟨appended.content, ?_⟩
  rw [List.length_map, appended.chunks]
  exact Nat.zero_add _

theorem copied_pieces {pieces : List Bytes} {bc : BChunks} (whole : Whole bc)
    (made : ∀ piece ∈ pieces, piece ≠ [] ∧ Made piece)
    (word : (content bc.chunksVector).length + pieces.flatten.length < 2 ^ 64)
    (below : bc.chunksVector.length ≤ Limits.default.maxChunks) :
    Copied bc (pieces.flatMap BChunks.chunksOf) (pieces.foldl appendParsed bc) := by
  induction pieces generalizing bc with
  | nil => exact ⟨whole, by simp, by simp only [List.flatMap_nil, List.foldl_nil, List.length_nil]; omega⟩
  | cons piece rest ih =>
    rw [List.forall_mem_cons] at made
    rw [List.flatten_cons, List.length_append] at word
    obtain ⟨flat, -⟩ := chunksOf_made made.1.1 (by omega) made.1.2
    have first := copied_copyToContainer whole (chunksOf_each piece) (by rw [flat]; omega) below
    have shorter := congrArg List.length first.content
    rw [List.length_append] at shorter
    have few : ((BChunks.chunksOf piece).take (Limits.default.maxChunks - bc.chunksVector.length)).flatten.length ≤
        piece.length := by
      conv_rhs => rw [← flat]
      exact (List.take_sublist _ _).flatten.length_le
    rw [List.flatMap_cons, List.foldl_cons]
    refine first.append (ih first.whole made.2 ?_ ?_)
    · omega
    · rw [first.length]
      omega

/-! ## The body -/

theorem Content.parse_mode {content : Content} (mode : content.currentMode = .procModeContentLength) (settings : Settings)
    (presented : Presented) :
    (Content.parse content settings presented).2.2.currentMode = .procModeContentLength := by
  simp only [Content.parse, mode]

/-- A content in this mode with its default container. In the other modes what is presented may be in more chunks. -/
structure ContentLengthBody where
  content : Content
  mode : content.currentMode = .procModeContentLength
  binDataContainer : BChunks

namespace ContentLengthBody

def parse : Parse ContentLengthBody := fun body settings presented =>
  let parsed := Content.parse body.content settings presented
  (parsed.1, parsed.2.1,
    ⟨parsed.2.2, Content.parse_mode body.mode settings presented,
      appendParsed body.binDataContainer presented.parsedBuffer⟩)

/-- A parser for one body. -/
def protocol : Protocol ContentLengthBody where
  parse := parse
  changeToNextParser := fun body => some (none, body)
  fresh := fun _ size => Vector.replicate size 0
  maxTTL := 4096

/-- Whether the length is accepted, and the parser for a body of it. -/
def parser (securityMaxPostDataSize contentLengthSize : Fin (2 ^ 64)) : Bool × Parser ContentLengthBody :=
  let content := Content.new.setTransmitionModeUnder securityMaxPostDataSize .new .transmitModeContentLength
  let (accepted, settings) := Content.setContentLenSize securityMaxPostDataSize contentLengthSize content.1
  (accepted, ⟨some (.new settings), ⟨content.2, rfl, .empty .default⟩⟩)

/-- What there is of each write in the first `n` bytes. -/
def portions : (n : Nat) → List Bytes → List Bytes
  | _, [] => []
  | 0, _ => []
  | n + 1, buf :: later => buf.take (n + 1) :: portions (n + 1 - buf.length) later

/-- Of the stream the first `n` bytes are delivered and reported, and with the last of them the body ends. -/
structure Exact (n : Nat) (stream : Bytes) (outcome : Streams.Outcome ContentLengthBody) : Prop where
  delivered : Memory.content outcome.user.binDataContainer.chunksVector = stream.take n
  consumed : outcome.consumed = min n stream.length
  verdict : outcome.verdict = if stream.length < n then .open else .finished

/-- The chunks in which the first `n` bytes arrive: one for each 64 KiB of a write, begun or full. -/
def chunksNeeded (n : Nat) (writes : List Bytes) : Nat :=
  ((portions n writes).map fun piece => Limits.default.chunkCount piece.length).sum

/-! ## One write -/

/-- A body of which so many bytes are still to come. -/
structure Receiving (left : Nat) (p : SubParser) : Prop extends Direct p left where
  maxChunks : p.unparsedBuffer.limits.maxChunks = Limits.default.maxChunks

theorem receiving_content (securityMaxPostDataSize : Fin (2 ^ 64)) {contentLengthSize : Fin (2 ^ 64)}
    (accepted : contentLengthSize ≤ securityMaxPostDataSize) :
    ∃ p, (parser securityMaxPostDataSize contentLengthSize).2.currentParser = some p ∧ Receiving contentLengthSize p := by
  simp only [parser, Content.setContentLenSize, if_neg (not_lt.mpr accepted)]
  exact ⟨_, rfl, direct_new rfl, rfl⟩

theorem parse_keeps (body : ContentLengthBody) (settings : Settings) (presented : Presented) :
    (parse body settings presented).2.1 = settings := by
  simp only [parse, Content.parse, body.mode]

theorem status_parse (body : ContentLengthBody) (settings : Settings) (piece : Bytes) (left : Nat) :
    (parse body settings (.direct piece left)).1 = if 0 < left then .getMoreData else .gotoNextSubParser := by
  simp only [parse, Content.parse, body.mode, Content.leftToParse]
  rfl

/-- The body with a piece appended. -/
def receive (body : ContentLengthBody) (piece : Bytes) : ContentLengthBody where
  content := { body.content with outStream := body.content.outStream ++ piece }
  mode := body.mode
  binDataContainer := appendParsed body.binDataContainer piece

theorem user_parse (body : ContentLengthBody) (settings : Settings) (piece : Bytes) (left : Nat) :
    (parse body settings (.direct piece left)).2.2 = body.receive piece := by
  simp only [parse, Content.parse, body.mode, receive, Presented.parsedBuffer]

section
variable {left : Nat} {p : SubParser} (receiving : Receiving left p) (some : left ≠ 0) {buf : Bytes} (filled : buf ≠ [])
  (body : ContentLengthBody)
include receiving some filled

theorem write_full (full : ¬Made (buf.take left)) :
    (protocol.write ⟨Option.some p, body⟩ buf).verdict = .failed := by
  obtain ⟨p', refused⟩ := write_direct_full parse body (protocol.fresh body) receiving.toDirect some filled (by
    rw [receiving.maxChunks, Limits.chunkCount, receiving.maxChunkSize]
    exact Nat.not_le.mp full)
  rw [Protocol.write, parseData_refused protocol _ refused]

theorem write_fits (fits : Made (buf.take left)) :
    ∃ p', Receiving (left - buf.length) p' ∧ protocol.write ⟨Option.some p, body⟩ buf =
      let presented := Presented.direct (buf.take left) (left - (buf.take left).length)
      if buf.length < left then
        ⟨.open, ⟨Option.some p', body.receive (buf.take left)⟩, buf.length, [presented], [(p, buf)]⟩
      else ⟨.finished, ⟨none, body.receive (buf.take left)⟩, left, [presented], [(p, buf)]⟩ := by
  obtain ⟨p', ⟨direct, maxChunks⟩, result⟩ := write_direct_fits parse body (protocol.fresh body) receiving.toDirect some
    filled (by
      rw [receiving.maxChunks, Limits.chunkCount, receiving.maxChunkSize]
      exact fits) (parse_keeps body _)
  have length : (buf.take left).length = min left buf.length := List.length_take
  have parses : protocol.parse = parse := rfl
  have ends : protocol.changeToNextParser = fun body => Option.some (none, body) := rfl
  have rest : left - (buf.take left).length = left - buf.length := by omega
  refine ⟨p', ⟨by rwa [rest] at direct, maxChunks.trans receiving.maxChunks⟩, ?_⟩
  rw [Protocol.write, Protocol.parseData]
  rcases Nat.lt_or_ge buf.length left with less | enough
  · -- more is expected
    have more : 0 < left - (buf.take left).length := by omega
    have all : (buf.take left).length = buf.length := by omega
    simp only [parses, result, status_parse, user_parse, if_pos more, Protocol.turn, true_and]
    rw [if_neg (not_not.mpr all), if_pos less, all]
  · -- the body has been delivered
    have last : ¬0 < left - (buf.take left).length := by omega
    have all : (buf.take left).length = left := by omega
    simp only [parses, result, status_parse, user_parse, if_neg last, Protocol.turn, ends, reduceCtorEq, false_and,
      if_false]
    rw [if_neg (Nat.not_lt.mpr enough), all]

end

/-! ## The whole body -/

@[simp] theorem portions_zero (writes : List Bytes) : portions 0 writes = [] := by
  cases writes <;> rfl

theorem portions_cons {n : Nat} (some : n ≠ 0) (buf : Bytes) (later : List Bytes) :
    portions n (buf :: later) = buf.take n :: portions (n - buf.length) later := by
  obtain ⟨n, rfl⟩ := Nat.exists_eq_succ_of_ne_zero some
  rfl

theorem flatten_portions (n : Nat) (writes : List Bytes) : (portions n writes).flatten = writes.flatten.take n := by
  fun_induction portions n writes with
  | case1 n => simp
  | case2 writes => simp
  | case3 n buf later ih => rw [List.flatten_cons, ih, List.flatten_cons, List.take_append]

theorem portions_filled (n : Nat) {writes : List Bytes} (filled : ∀ buf ∈ writes, buf ≠ []) :
    ∀ piece ∈ portions n writes, piece ≠ [] := by
  fun_induction portions n writes with
  | case1 n => exact List.forall_mem_nil _
  | case2 writes => exact List.forall_mem_nil _
  | case3 n buf later ih =>
    rw [List.forall_mem_cons] at filled ⊢
    exact ⟨by simp [filled.1], ih filled.2⟩

/-- A write whose chunks cannot all be made fails, and the body with it. -/
theorem run_full {left : Nat} {p : SubParser} (receiving : Receiving left p) (body : ContentLengthBody) {writes : List Bytes}
    (filled : ∀ buf ∈ writes, buf ≠ []) (full : ∃ piece ∈ portions left writes, ¬Made piece) :
    (protocol.run ⟨some p, body⟩ writes).verdict = .failed := by
  induction writes generalizing left p body with
  | nil =>
    obtain ⟨piece, member, -⟩ := full
    cases member
  | cons buf later ih =>
    rw [List.forall_mem_cons] at filled
    have some : left ≠ 0 := by
      rintro rfl
      obtain ⟨piece, member, -⟩ := full
      cases member
    simp only [portions_cons some, List.mem_cons, exists_eq_or_imp] at full
    rw [Protocol.run, Parsed.followed]
    by_cases fits : Made (buf.take left)
    · obtain ⟨p', receiving', result⟩ := write_fits receiving some filled.1 body fits
      have crowded := full.resolve_left (not_not.mpr fits)
      rcases Nat.lt_or_ge buf.length left with less | enough
      · simp only [result, if_pos less, if_true, Outcome.after]
        exact ih receiving' _ filled.2 crowded
      · -- nothing of what comes later is of this body
        rw [Nat.sub_eq_zero_of_le enough, portions_zero] at crowded
        obtain ⟨piece, member, -⟩ := crowded
        cases member
    · have failed := write_full receiving some filled.1 body fits
      simp only [failed, reduceCtorEq, if_false]

/-- The body once the pieces have been appended. -/
theorem run_fits {left : Nat} {p : SubParser} (receiving : Receiving left p) (body : ContentLengthBody) {writes : List Bytes}
    (some : left ≠ 0) (filled : ∀ buf ∈ writes, buf ≠ []) (fits : ∀ piece ∈ portions left writes, Made piece) :
    (protocol.run ⟨Option.some p, body⟩ writes).verdict = (if writes.flatten.length < left then .open else .finished) ∧
      (protocol.run ⟨Option.some p, body⟩ writes).consumed = min left writes.flatten.length ∧
      (protocol.run ⟨Option.some p, body⟩ writes).user.binDataContainer =
        (portions left writes).foldl appendParsed body.binDataContainer := by
  induction writes generalizing left p body with
  | nil => exact ⟨(if_pos (Nat.pos_of_ne_zero some)).symm, (Nat.min_zero left).symm, rfl⟩
  | cons buf later ih =>
    rw [portions_cons some, List.forall_mem_cons] at fits
    rw [List.forall_mem_cons] at filled
    obtain ⟨p', receiving', result⟩ := write_fits receiving some filled.1 body fits.1
    rw [Protocol.run, Parsed.followed, portions_cons some, List.foldl_cons, List.flatten_cons, List.length_append]
    rcases Nat.lt_or_ge buf.length left with less | enough
    · simp only [result, if_pos less, if_true, Outcome.after]
      obtain ⟨verdict, consumed, stored⟩ := ih receiving' (body.receive (buf.take left)) (by omega) filled.2 fits.2
      refine ⟨?_, by rw [consumed]; omega, stored⟩
      rw [verdict]
      congr 1
      exact propext (by omega)
    · simp only [result, if_neg (Nat.not_lt.mpr enough), reduceCtorEq, if_false, Nat.sub_eq_zero_of_le enough,
        portions_zero, List.foldl_nil]
      exact ⟨(if_neg (by omega)).symm, by omega, rfl⟩

/-- A text is its first chunks only where these are all. -/
theorem flatten_take_eq_iff {chunks : List Bytes} (filled : ∀ chunk ∈ chunks, chunk ≠ []) (k : Nat) :
    (chunks.take k).flatten = chunks.flatten ↔ chunks.length ≤ k := by
  constructor
  · intro same
    conv_rhs at same => rw [← List.take_append_drop k chunks, List.flatten_append]
    have none := List.self_eq_append_right.mp same
    rw [List.flatten_eq_nil_iff] at none
    by_contra more
    have some : chunks.drop k ≠ [] := by
      rw [Ne, List.drop_eq_nil_iff]
      exact more
    obtain ⟨chunk, rest, split⟩ := List.exists_cons_of_ne_nil some
    have member : chunk ∈ chunks.drop k := by rw [split]; exact .head _
    exact filled chunk (List.mem_of_mem_drop member) (none chunk member)
  · intro few
    rw [List.take_of_length_le few]

theorem length_flatMap_chunksOf {pieces : List Bytes} (made : ∀ piece ∈ pieces, piece ≠ [] ∧ piece.length < 2 ^ 64 ∧ Made piece) :
    (pieces.flatMap BChunks.chunksOf).length = (pieces.map fun piece => Limits.default.chunkCount piece.length).sum ∧
      (pieces.flatMap BChunks.chunksOf).flatten = pieces.flatten := by
  induction pieces with
  | nil => exact ⟨rfl, rfl⟩
  | cons piece rest ih =>
    rw [List.forall_mem_cons] at made
    obtain ⟨flat, count⟩ := chunksOf_made made.1.1 made.1.2.1 made.1.2.2
    obtain ⟨counts, flats⟩ := ih made.2
    rw [List.flatMap_cons, List.length_append, List.flatten_append, flat, count, counts, flats]
    exact ⟨rfl, rfl⟩

theorem made_of_few {pieces : List Bytes}
    (few : (pieces.map fun piece => Limits.default.chunkCount piece.length).sum ≤ Limits.default.maxChunks) :
    ∀ piece ∈ pieces, Made piece := by
  intro piece member
  have one : Limits.default.chunkCount piece.length ∈ pieces.map fun piece => Limits.default.chunkCount piece.length :=
    List.mem_map_of_mem member
  exact Nat.le_trans (List.le_sum_of_mem one) few

/-- The first bytes are delivered exactly where the container has a chunk for each of those in which they arrive. -/
theorem exact_iff {securityMaxPostDataSize contentLengthSize : Fin (2 ^ 64)}
    (accepted : contentLengthSize ≤ securityMaxPostDataSize) (positive : (contentLengthSize : Nat) ≠ 0) {writes : List Bytes}
    (filled : ∀ buf ∈ writes, buf ≠ []) :
    Exact contentLengthSize writes.flatten
        (protocol.run (parser securityMaxPostDataSize contentLengthSize).2 writes) ↔
      chunksNeeded contentLengthSize writes ≤ Limits.default.maxChunks := by
  obtain ⟨p, current, receiving⟩ := receiving_content securityMaxPostDataSize accepted
  have n_word := contentLengthSize.isLt
  have parses : (parser securityMaxPostDataSize contentLengthSize).2 =
      ⟨some p, (parser securityMaxPostDataSize contentLengthSize).2.user⟩ := by rw [← current]
  rw [parses]
  have pieces := portions_filled contentLengthSize filled
  by_cases made : ∀ piece ∈ portions contentLengthSize writes, Made piece
  · obtain ⟨verdict, consumed, stored⟩ :=
      run_fits receiving (parser securityMaxPostDataSize contentLengthSize).2.user positive filled made
    have flat := flatten_portions contentLengthSize writes
    have total : (portions contentLengthSize writes).flatten.length ≤ contentLengthSize := by
      rw [flat]
      exact List.length_take_le _ _
    have each : ∀ piece ∈ portions contentLengthSize writes, piece.length ≤ contentLengthSize := fun piece member =>
      Nat.le_trans (List.sublist_flatten_of_mem member).length_le total
    obtain ⟨count, chunks⟩ := length_flatMap_chunksOf fun piece member =>
      ⟨pieces piece member, Nat.lt_of_le_of_lt (each piece member) n_word, made piece member⟩
    have copied := copied_pieces (whole_held []) (fun piece member => ⟨pieces piece member, made piece member⟩)
      (by change 0 + _ < _; omega) (Nat.zero_le _)
    have delivered : Memory.content (protocol.run ⟨some p, (parser securityMaxPostDataSize contentLengthSize).2.user⟩
        writes).user.binDataContainer.chunksVector =
        (((portions contentLengthSize writes).flatMap BChunks.chunksOf).take Limits.default.maxChunks).flatten := by
      rw [stored]
      exact copied.content
    rw [chunksNeeded, ← count, ← flatten_take_eq_iff, ← delivered, chunks, flat]
    · exact ⟨fun exact => exact.delivered, fun same => ⟨same, consumed, verdict⟩⟩
    · intro chunk member
      obtain ⟨piece, -, inside⟩ := List.mem_flatMap.mp member
      exact (chunksOf_each piece chunk inside).1
  · have full : ∃ piece ∈ portions contentLengthSize writes, ¬Made piece := by
      by_contra none
      exact made fun piece member => by_contra fun other => none ⟨piece, member, other⟩
    have failed := run_full receiving (parser securityMaxPostDataSize contentLengthSize).2.user filled full
    constructor
    · intro exact
      have verdict := exact.verdict
      rw [failed] at verdict
      split at verdict <;> cases verdict
    · exact fun few => absurd (made_of_few few) made

/-- A length above the limit is refused, and of any other exactly the body is delivered. -/
def ContentExact (securityMaxPostDataSize contentLengthSize : Fin (2 ^ 64)) (writes : List Bytes) : Prop :=
  ((parser securityMaxPostDataSize contentLengthSize).1 = true ↔ contentLengthSize ≤ securityMaxPostDataSize) ∧
    (contentLengthSize ≤ securityMaxPostDataSize → Exact contentLengthSize writes.flatten
      (protocol.run (parser securityMaxPostDataSize contentLengthSize).2 writes))

theorem accepted_iff (securityMaxPostDataSize contentLengthSize : Fin (2 ^ 64)) :
    (parser securityMaxPostDataSize contentLengthSize).1 = true ↔ contentLengthSize ≤ securityMaxPostDataSize := by
  simp only [parser, Content.setContentLenSize]
  split
  case isTrue long => simpa using long
  case isFalse short => simpa using not_lt.mp short

theorem contentExact_iff (securityMaxPostDataSize contentLengthSize : Fin (2 ^ 64)) (positive : (contentLengthSize : Nat) ≠ 0)
    {writes : List Bytes} (filled : ∀ buf ∈ writes, buf ≠ []) :
    ContentExact securityMaxPostDataSize contentLengthSize writes ↔
      (contentLengthSize ≤ securityMaxPostDataSize → chunksNeeded contentLengthSize writes ≤ Limits.default.maxChunks) := by
  rw [ContentExact, and_iff_right (accepted_iff securityMaxPostDataSize contentLengthSize)]
  exact forall_congr' fun accepted => exact_iff accepted positive filled

/-- A body of five bytes, of which the first write brings three and the second more than the rest. -/
theorem contentExact_iff_five :
    ContentExact Content.securityMaxPostDataSize 5 [[97, 98, 99], [100, 101, 102]] ↔
      ((5 : Fin (2 ^ 64)) ≤ Content.securityMaxPostDataSize →
        chunksNeeded 5 [[97, 98, 99], [100, 101, 102]] ≤ Limits.default.maxChunks) :=
  contentExact_iff Content.securityMaxPostDataSize 5 (by decide) (by decide)

/-- Bytes that come one by one take a chunk each. -/
theorem chunksNeeded_replicate (n : Nat) (byte : UInt8) : chunksNeeded n (List.replicate n [byte]) = n := by
  have all : portions n (List.replicate n [byte]) = List.replicate n [byte] := by
    induction n with
    | zero => rfl
    | succ n ih =>
      rw [List.replicate_succ, portions, List.length_singleton, Nat.add_sub_cancel, ih,
        List.take_of_length_le (by simp)]
  have one : Limits.default.chunkCount 1 = 1 := by decide
  rw [chunksNeeded, all, List.map_replicate, List.length_singleton, one, List.sum_replicate, smul_eq_mul, Nat.mul_one]

/-- A body within the limit, whose bytes come one by one. -/
theorem contentExact_fails :
    ¬ContentExact Content.securityMaxPostDataSize 262145 (List.replicate 262145 [97]) := by
  intro exact
  have filled : ∀ buf ∈ List.replicate 262145 [(97 : UInt8)], buf ≠ [] := by
    intro buf member
    rw [List.eq_of_mem_replicate member]
    decide
  have accepted : (262145 : Fin (2 ^ 64)) ≤ Content.securityMaxPostDataSize := by decide
  have few := (exact_iff accepted (by decide) filled).mp (exact.2 accepted)
  have needed : chunksNeeded (262145 : Fin (2 ^ 64)) (List.replicate 262145 [97]) = 262145 := chunksNeeded_replicate 262145 97
  rw [needed] at few
  exact absurd few (by decide)

end ContentLengthBody

end Mantids.HTTP
