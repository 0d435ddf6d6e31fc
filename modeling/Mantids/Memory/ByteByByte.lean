import Mantids.Memory.DelimiterLength

/-! A delimiter of four bytes or more is never found in content that is written byte by byte:
at most two bytes are kept back. -/

set_option autoImplicit false

namespace Mantids.Memory.Streams

/-- Memory in which `malloc` finds zeros. -/
def zeros : Fresh := fun size => Vector.replicate size 0

/-- The chunks between two writes of one byte. Two of them are at the offsets that the
recalculation leaves, and a second one at its own offset follows no beginning of the delimiter. -/
inductive Kept (first : UInt8) : List BinaryContainerChunk → Nat → Prop where
  | none : Kept first [] 0
  | one (x : UInt8) : Kept first [⟨[x], 0⟩] 1
  | two (x y : UInt8) : Kept first [⟨[x], 1⟩, ⟨[y], 1⟩] 2
  | moved (x y : UInt8) (other : x ≠ first) : Kept first [⟨[x], 1⟩, ⟨[y], 2⟩] 2

/-- A sub parser that content is written to byte by byte, up to a delimiter that begins with `first`. -/
structure Trickled (first second : UInt8) (p : SubParser) : Prop where
  mode : p.parseMode = .directDelimiter
  begins : ∃ c d tail, p.parseDelimiter = first :: second :: c :: d :: tail
  kept : Kept first p.unparsedBuffer.chunksVector p.unparsedBuffer.containerBytes
  maxChunks : p.unparsedBuffer.limits.maxChunks = Limits.default.maxChunks
  maxChunkSize : p.unparsedBuffer.limits.maxChunkSize = Limits.default.maxChunkSize

/-- The chunks after a write of one byte. -/
inductive Grown (first : UInt8) : List BinaryContainerChunk → Nat → Prop where
  | one (x : UInt8) : Grown first [⟨[x], 0⟩] 1
  | two (x y : UInt8) : Grown first [⟨[x], 0⟩, ⟨[y], 1⟩] 2
  | three (x y z : UInt8) : Grown first [⟨[x], 1⟩, ⟨[y], 1⟩, ⟨[z], 2⟩] 3
  | moved (x y z : UInt8) (other : x ≠ first) : Grown first [⟨[x], 1⟩, ⟨[y], 2⟩, ⟨[z], 3⟩] 3

section
variable {first : UInt8} {chunks : List BinaryContainerChunk} {bytes : Nat}

theorem Kept.grown (kept : Kept first chunks bytes) (z : UInt8) :
    Grown first (chunks ++ [⟨[z], BChunks.nextFreeOffset chunks⟩]) (bytes + 1) := by
  cases kept with
  | none => exact .one z
  | one x => exact .two x z
  | two x y => exact .three x y z
  | moved x y other => exact .moved x y z other

theorem Grown.counted (grown : Grown first chunks bytes) (limits : Limits) :
    BChunks.Counted ⟨chunks, bytes, limits⟩ := by
  cases grown <;> exact ⟨rfl, by simp⟩

theorem Grown.le_three (grown : Grown first chunks bytes) : bytes ≤ 3 := by
  cases grown <;> simp

/-- What all the bytes of three chunks are compared with is memory, and of two bytes the first two. -/
theorem Grown.copyOut (grown : Grown first chunks bytes) (limits : Limits) :
    (bytes = 3 → BChunks.copyOut ⟨chunks, bytes, limits⟩ 3 0 = .none) ∧
      (bytes = 3 → BChunks.copyOut ⟨chunks, bytes, limits⟩ 2 1 = some ((content chunks).take 2)) := by
  cases grown <;>
    simp [BChunks.copyOut, overflowSum, BChunks.size, BChunks.iChunkGetPosForOffset, BChunks.searchFrom,
      BinaryContainerChunk.containsOffset, BinaryContainerChunk.nextOffset, BinaryContainerChunk.size,
      BinaryContainerChunk.moveToOffset, BChunks.copyOutLoop]

/-- What at most two bytes are kept back leaves. -/
theorem Grown.displace (grown : Grown first chunks bytes) (limits : Limits) {second : UInt8}
    (differ : first ≠ second) {v : Nat} (some : 0 < v) (few : v ≤ 2) (inside : v ≤ bytes)
    (compared : bytes = 3 → v = 2 → (content chunks).take 2 = [first, second]) :
    ∃ chunks', (BChunks.displace ⟨chunks, bytes, limits⟩ (bytes - v)).2 = ⟨chunks', v, limits⟩ ∧
      Kept first chunks' v := by
  rw [BChunks.displace_eq (grown.counted limits)]
  simp only [BChunks.size, Nat.min_eq_left (Nat.sub_le bytes v), Nat.sub_sub_self inside]
  refine ⟨_, rfl, ?_⟩
  obtain rfl | rfl : v = 1 ∨ v = 2 := by omega
  · cases grown with
    | one x => exact .one x
    | two x y => exact .one y
    | three x y z => exact .one z
    | moved x y z other => exact .one z
  · cases grown with
    | one x => omega
    | two x y => exact .two x y
    | three x y z =>
      have same := compared rfl rfl
      simp only [content_cons, content_nil, List.singleton_append, List.take_succ_cons, List.take_zero,
        List.cons.injEq] at same
      obtain ⟨-, rfl, -⟩ := same
      exact .moved y z differ.symm
    | moved x y z other =>
      have same := compared rfl rfl
      simp only [content_cons, content_nil, List.singleton_append, List.take_succ_cons, List.take_zero,
        List.cons.injEq] at same
      exact absurd same.1 other

end

/-- The end of the stream is refused. -/
theorem write_nothing {σ : Type} (parse : Parse σ) (user : σ) (fresh : Fresh) {p : SubParser}
    (mode : p.parseMode = .directDelimiter) : (writeIntoParser parse user fresh p []).taken = none := by
  have stick : SubParser.stick { p with streamEnded := true } [] = [] := by
    unfold SubParser.stick
    split <;> simp
  simp only [writeIntoParser, if_true, mode, parseDirectDelimiter]
  rw [mode] at stick
  rw [if_pos stick]
  rfl

/-! ## One byte -/

theorem append_byte_cases {c : BChunks} (maxChunks : c.limits.maxChunks = Limits.default.maxChunks)
    (maxChunkSize : c.limits.maxChunkSize = Limits.default.maxChunkSize) (few : c.chunksVector.length < 2 ^ 18)
    (small : c.containerBytes + 1 < 2 ^ 64) (z : UInt8) :
    c.append [z] = ((false, 0), c) ∨
      c.append [z] = ((true, 1), ⟨c.chunksVector ++ [⟨[z], BChunks.nextFreeOffset c.chunksVector⟩],
        c.containerBytes + 1, c.limits⟩) := by
  have sum : overflowSum 1 c.containerBytes = false := decide_eq_false (by omega)
  have chunkSize : c.limits.maxChunkSize = 2 ^ 16 := by rw [maxChunkSize]; rfl
  obtain ⟨room, left⟩ : ∃ room, c.limits.maxChunks - c.chunksVector.length = room + 1 := by
    refine ⟨c.limits.maxChunks - c.chunksVector.length - 1, ?_⟩
    have chunks : c.limits.maxChunks = 2 ^ 18 := by rw [maxChunks]; rfl
    omega
  simp only [BChunks.append, BChunks.insert, BChunks.append2, BChunks.size, List.length_singleton, sum,
    Bool.false_eq_true, if_false, left]
  by_cases full : c.limits.maxSize < 1 + c.containerBytes
  · exact .inl (if_pos full)
  · rw [if_neg full, if_neg (by simp)]
    right
    have counts : (c.containerBytes + 1) % 2 ^ 64 = c.containerBytes + 1 := Nat.mod_eq_of_lt small
    simp only [Nat.reducePow] at counts
    simp only [BChunks.insertLoop, chunkSize, BChunks.insertChunk, BChunks.incContainerBytesCount, Nat.reducePow,
      List.take_succ_cons, List.take_nil, List.drop_succ_cons, List.drop_nil, List.length_singleton, Nat.zero_add,
      Bool.false_eq_true, if_false, counts]

theorem stick_byte (p : SubParser) (z : UInt8) : p.stick [z] = [z] := by
  unfold SubParser.stick
  rw [if_neg]
  rintro ⟨less, some⟩
  rw [List.length_singleton] at less
  omega

section
variable {first second : UInt8} {boundary : Bytes}
  (begins : ∃ c d tail, boundary = first :: second :: c :: d :: tail)
include begins

/-- At most two bytes pass for the beginning of the delimiter, and of three the first two are compared. -/
theorem held_byte {q : SubParser} (grown : Grown first q.unparsedBuffer.chunksVector q.unparsedBuffer.containerBytes)
    (nonzero : first ≠ 0) :
    let v := q.getLastBytesInCommon zeros boundary
    v ≤ 2 ∧ v ≤ q.unparsedBuffer.containerBytes ∧
      (q.unparsedBuffer.containerBytes = 3 → v = 2 → q.pending.take 2 = [first, second]) := by
  intro v
  obtain ⟨c, d, tail, rfl⟩ := begins
  have three := grown.le_three
  have copies := grown.copyOut q.unparsedBuffer.limits
  obtain ⟨le, same, -⟩ := @lastBytesLoop_spec q zeros (first :: second :: c :: d :: tail)
    (if (first :: second :: c :: d :: tail).length - 1 < q.unparsedBuffer.size then
      (first :: second :: c :: d :: tail).length - 1 else q.unparsedBuffer.size)
  change v ≤ _ at le
  change v ≠ 0 → q.lastBytesMatch zeros (first :: second :: c :: d :: tail) v at same
  have inside : v ≤ q.unparsedBuffer.containerBytes := by
    have size : q.unparsedBuffer.size = q.unparsedBuffer.containerBytes := rfl
    split at le <;> omega
  have notThree : v ≠ 3 := by
    intro three'
    have bytes : q.unparsedBuffer.containerBytes = 3 := by omega
    have here := same (by omega)
    rw [three'] at here
    have misses : q.unparsedBuffer.copyOut 3 (q.unparsedBuffer.size - 3) = none := by
      rw [BChunks.size, bytes]
      exact copies.1 bytes
    have compared := (lastBytesMatch_missed misses).symm.trans here
    simp [zeros, List.replicate, nonzero.symm] at compared
  refine ⟨by omega, inside, ?_⟩
  intro bytes two
  have here := same (by omega)
  rw [two] at here
  have copied : q.unparsedBuffer.copyOut 2 (q.unparsedBuffer.size - 2) = some (q.pending.take 2) := by
    rw [BChunks.size, bytes]
    exact copies.2 bytes
  have length : (q.pending.take 2).length = 2 := by
    rw [List.length_take, SubParser.pending, length_content, ← (grown.counted q.unparsedBuffer.limits).bytes, bytes]
    rfl
  exact of_decide_eq_true ((lastBytesMatch_copied _ copied length).symm.trans here)

end

section
variable {σ : Type} (parse : Parse σ) (user : σ) {first second : UInt8} {p : SubParser}
  (trickled : Trickled first second p) (differ : first ≠ second) (nonzero : first ≠ 0)
  (keeps : ∀ presented, (parse user p.settings presented).2.1 = p.settings)
include trickled differ nonzero keeps

/-- A byte is refused, or taken without a delimiter found. -/
theorem write_byte (z : UInt8) : (writeIntoParser parse user zeros p [z]).taken = none ∨
    ∃ parsedBuffer p', Trickled first second p' ∧ writeIntoParser parse user zeros p [z] =
      let presented := .element parsedBuffer (some [])
      ⟨some 1, (parse user p.settings presented).1, p', (parse user p.settings presented).2.2, [presented]⟩ := by
  obtain ⟨few, small⟩ : p.unparsedBuffer.chunksVector.length ≤ 2 ∧ p.unparsedBuffer.containerBytes ≤ 2 := by
    have kept := trickled.kept
    generalize p.unparsedBuffer.chunksVector = chunks at kept
    generalize p.unparsedBuffer.containerBytes = bytes at kept
    cases kept <;> simp
  have dispatched : writeIntoParser parse user zeros p [z] = parseDirectDelimiter parse user zeros p [z] := by
    simp only [writeIntoParser, List.cons_ne_nil, if_false, trickled.mode]
  rw [dispatched, parseDirectDelimiter]
  simp only [stick_byte, List.cons_ne_nil, if_false]
  rcases append_byte_cases trickled.maxChunks trickled.maxChunkSize (by omega) (by omega) z with refused | taken
  · left
    rw [refused]
    rfl
  · right
    rw [taken]
    have grown := trickled.kept.grown z
    generalize p.unparsedBuffer.chunksVector ++ [⟨[z], BChunks.nextFreeOffset p.unparsedBuffer.chunksVector⟩] =
      chunks at grown
    generalize p.unparsedBuffer.containerBytes + 1 = bytes at grown
    have three := grown.le_three
    have counted := grown.counted p.unparsedBuffer.limits
    have missing : BChunks.find ⟨chunks, bytes, p.unparsedBuffer.limits⟩ p.parseDelimiter = none := by
      obtain ⟨c, d, tail, begins⟩ := trickled.begins
      rw [BChunks.find_eq counted]
      apply missing_of_length
      rw [length_content, ← counted.bytes, begins]
      simp only [List.length_cons]
      omega
    obtain ⟨atMost, inside, compared⟩ := @held_byte _ _ _ trickled.begins
      { p with unparsedBuffer := ⟨chunks, bytes, p.unparsedBuffer.limits⟩ } grown nonzero
    simp only [missing, Bool.true_eq_false, if_false]
    generalize SubParser.getLastBytesInCommon _ zeros p.parseDelimiter = v at atMost inside compared ⊢
    have settings : SubParser.settings { p with unparsedBuffer := ⟨chunks, bytes, p.unparsedBuffer.limits⟩ } =
        p.settings := rfl
    have configured : SubParser.configure { p with unparsedBuffer := ⟨chunks, bytes, p.unparsedBuffer.limits⟩ }
        p.settings = { p with unparsedBuffer := ⟨chunks, bytes, p.unparsedBuffer.limits⟩ } := rfl
    simp only [settings, keeps, configured]
    refine ⟨_, _, ?_, rfl⟩
    split
    · exact ⟨trickled.mode, trickled.begins, .none, trickled.maxChunks, trickled.maxChunkSize⟩
    · rename_i some
      obtain ⟨chunks', displaced, kept⟩ := grown.displace p.unparsedBuffer.limits differ (Nat.pos_of_ne_zero some)
        atMost inside compared
      simp only [BChunks.size, displaced]
      exact ⟨trickled.mode, trickled.begins, kept, trickled.maxChunks, trickled.maxChunkSize⟩

end

end Mantids.Memory.Streams
