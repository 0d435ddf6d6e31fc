import Mantids.Memory.Chunks

/-! What appending to a container leaves, in terms of its content. -/

set_option autoImplicit false

namespace Mantids.Memory

/-- How many chunks so many bytes take. -/
def Limits.chunkCount (limits : Limits) (bytes : Nat) : Nat :=
  (bytes + limits.maxChunkSize - 1) / limits.maxChunkSize

namespace BChunks

theorem chunkCount_cons {limits : Limits} (positive : limits.maxChunkSize ≠ 0) {bytes : Nat} (filled : 0 < bytes) :
    limits.chunkCount bytes = limits.chunkCount (bytes - limits.maxChunkSize) + 1 := by
  have pos : 0 < limits.maxChunkSize := Nat.pos_of_ne_zero positive
  unfold Limits.chunkCount
  rcases Nat.lt_or_ge bytes limits.maxChunkSize with less | more
  · have first : bytes + limits.maxChunkSize - 1 = (bytes - 1) + limits.maxChunkSize := by omega
    rw [first, Nat.add_div_right _ pos, Nat.div_eq_of_lt (by omega), Nat.sub_eq_zero_of_le (Nat.le_of_lt less),
      Nat.zero_add, Nat.div_eq_of_lt (by omega)]
  · have first : bytes + limits.maxChunkSize - 1 =
        (bytes - limits.maxChunkSize + limits.maxChunkSize - 1) + limits.maxChunkSize := by omega
    rw [first, Nat.add_div_right _ pos]

@[simp] theorem chunkCount_zero {limits : Limits} (positive : limits.maxChunkSize ≠ 0) :
    limits.chunkCount 0 = 0 := by
  unfold Limits.chunkCount
  exact Nat.div_eq_of_lt (by omega)

/-- `c'` is `c` with the bytes at its back. -/
structure Appended (c : BChunks) (buf : Bytes) (c' : BChunks) : Prop where
  counted : Counted c'
  content : content c'.chunksVector = content c.chunksVector ++ buf
  limits : c'.limits = c.limits
  chunks : c'.chunksVector.length = c.chunksVector.length + c.limits.chunkCount buf.length

theorem insertChunk_appended {c : BChunks} (counted : Counted c) {buf : Bytes}
    (word : c.containerBytes + buf.length < 2 ^ 64) :
    Counted (insertChunk false c buf) ∧
      content (insertChunk false c buf).chunksVector = content c.chunksVector ++ buf := by
  have bytes : (insertChunk false c buf).containerBytes = c.containerBytes + buf.length := Nat.mod_eq_of_lt word
  refine ⟨⟨?_, by omega⟩, ?_⟩
  · rw [bytes, counted.bytes]
    simp [insertChunk, incContainerBytesCount, BinaryContainerChunk.size]
  · simp [insertChunk, incContainerBytesCount]

section
variable {c : BChunks} (counted : Counted c) (positive : c.limits.maxChunkSize ≠ 0)
include counted positive

theorem insertLoop_appended (room : Nat) (buf : Bytes) (appended : Nat)
    (word : c.containerBytes + buf.length < 2 ^ 64) (enough : c.limits.chunkCount buf.length ≤ room) :
    ∃ c', insertLoop false room buf appended c = ((true, appended + buf.length), c') ∧ Appended c buf c' := by
  fun_induction insertLoop false room buf appended c with
  | case1 room appended c =>
    refine ⟨c, rfl, counted, (List.append_nil _).symm, rfl, ?_⟩
    simp [positive]
  | case2 byte rest appended c =>
    rw [chunkCount_cons positive (by simp)] at enough
    omega
  | case3 room byte rest appended c chunk ih =>
    have split : chunk ++ (byte :: rest).drop c.limits.maxChunkSize = byte :: rest := List.take_append_drop ..
    have pieces : chunk.length + ((byte :: rest).drop c.limits.maxChunkSize).length = (byte :: rest).length := by
      rw [← List.length_append, split]
    have filled : 0 < (byte :: rest).length := Nat.zero_lt_succ _
    have short : c.containerBytes + chunk.length < 2 ^ 64 := by omega
    obtain ⟨counted', same⟩ := insertChunk_appended counted short
    have bytes : (insertChunk false c chunk).containerBytes = c.containerBytes + chunk.length :=
      Nat.mod_eq_of_lt short
    have count := chunkCount_cons positive filled
    rw [← List.length_drop] at count
    have few : (insertChunk false c chunk).limits.chunkCount
        ((byte :: rest).drop c.limits.maxChunkSize).length ≤ room := by
      show c.limits.chunkCount _ ≤ room
      omega
    obtain ⟨c', result, after⟩ := ih counted' positive (by omega) few
    refine ⟨c', ?_, after.counted, ?_, after.limits, ?_⟩
    · rw [result, Nat.add_assoc, pieces]
    · rw [after.content, same, List.append_assoc, split]
    · have chunks : (insertChunk false c chunk).chunksVector.length = c.chunksVector.length + 1 := by
        simp [insertChunk, incContainerBytesCount]
      have limits : (insertChunk false c chunk).limits = c.limits := rfl
      rw [after.chunks, chunks, limits]
      omega

omit counted in
theorem insertLoop_full (prependMode : Bool) {room : Nat} {buf : Bytes} (appended : Nat)
    (few : room < c.limits.chunkCount buf.length) : (insertLoop prependMode room buf appended c).1.1 = false := by
  fun_induction insertLoop prependMode room buf appended c with
  | case1 room appended c => simp [positive] at few
  | case2 => rfl
  | case3 room byte rest appended c chunk ih =>
    apply ih positive
    rw [chunkCount_cons positive (by simp)] at few
    show room < c.limits.chunkCount _
    rw [List.length_drop]
    omega

omit counted in
/-- With enough chunks left the loop answers for all bytes, whatever the container counts. -/
theorem insertLoop_taken (prependMode : Bool) {room : Nat} {buf : Bytes} (appended : Nat)
    (enough : c.limits.chunkCount buf.length ≤ room) :
    (insertLoop prependMode room buf appended c).1 = (true, appended + buf.length) := by
  fun_induction insertLoop prependMode room buf appended c with
  | case1 => rfl
  | case2 byte rest appended c =>
    rw [chunkCount_cons positive (by simp)] at enough
    omega
  | case3 room byte rest appended c chunk ih =>
    have count := chunkCount_cons positive (show 0 < (byte :: rest).length from Nat.zero_lt_succ _)
    rw [← List.length_drop] at count
    have taken : chunk.length + ((byte :: rest).drop c.limits.maxChunkSize).length = (byte :: rest).length := by
      rw [← List.length_append, List.take_append_drop]
    rw [ih positive (show c.limits.chunkCount _ ≤ room by omega), Nat.add_assoc, taken]

/-- A buffer that fits is appended if there are chunks left for it, and else refused. -/
theorem append_appended {buf : Bytes} (filled : buf ≠ [])
    (fits : c.containerBytes + buf.length ≤ c.limits.maxSize)
    (room : c.chunksVector.length + c.limits.chunkCount buf.length ≤ c.limits.maxChunks) :
    ∃ c', c.append buf = ((true, buf.length), c') ∧ Appended c buf c' := by
  have word := c.limits.size_word
  have sum : overflowSum buf.length c.containerBytes = false := decide_eq_false (by omega)
  obtain ⟨c', result, after⟩ := insertLoop_appended counted positive
    (c.limits.maxChunks - c.chunksVector.length) buf 0 (by omega) (by omega)
  refine ⟨c', ?_, after⟩
  simp only [append, insert, append2, size, sum, filled, if_false, Bool.false_eq_true]
  rw [if_neg (by omega), result, Nat.zero_add]

omit counted in
theorem append_full {buf : Bytes} (filled : buf ≠ [])
    (few : c.limits.maxChunks < c.chunksVector.length + c.limits.chunkCount buf.length)
    (below : c.chunksVector.length ≤ c.limits.maxChunks) : (c.append buf).1.1 = false := by
  unfold append insert append2
  split
  · rfl
  · split
    · rfl
    · exact insertLoop_full positive false 0 (by omega)

end

theorem append_nil {c : BChunks} (counted : Counted c) (fits : c.containerBytes ≤ c.limits.maxSize) :
    c.append [] = ((true, 0), c) := by
  have word := counted.word
  have sum : overflowSum 0 c.containerBytes = false := decide_eq_false (by omega)
  simp only [append, insert, size, List.length_nil, sum, Bool.false_eq_true, if_false, if_true]
  rw [if_neg (by omega)]

theorem append_tooLong {c : BChunks} {buf : Bytes} (long : c.limits.maxSize < buf.length + c.containerBytes) :
    c.append buf = ((false, 0), c) := by
  unfold append insert size
  split
  · rfl
  · rfl

/-! ## Data in a container of its own -/

/-- The chunks of a new container to which the data is appended. -/
def chunksOf (data : Bytes) : List Bytes := ((empty .default).append data).2.chunksVector.map BinaryContainerChunk.data

theorem insertLoop_filled {room : Nat} {buf : Bytes} {appended : Nat} {c : BChunks}
    (positive : c.limits.maxChunkSize ≠ 0) (filled : ∀ chunk ∈ c.chunksVector, chunk.data ≠ []) :
    ∀ chunk ∈ (insertLoop false room buf appended c).2.chunksVector, chunk.data ≠ [] := by
  fun_induction insertLoop false room buf appended c with
  | case1 => exact filled
  | case2 => exact filled
  | case3 room byte rest appended c chunk ih =>
    apply ih positive
    intro other member
    rcases List.mem_append.mp member with old | new
    · exact filled other old
    · rw [List.mem_singleton.mp new]
      exact List.ne_nil_of_length_pos (by simp [chunk]; omega)

/-- No chunk is empty. -/
theorem chunksOf_filled (data : Bytes) : ∀ chunk ∈ chunksOf data, chunk ≠ [] := by
  have all : ∀ chunk ∈ ((empty .default).append data).2.chunksVector, chunk.data ≠ [] := by
    unfold append insert append2
    split
    · nofun
    split
    · nofun
    split
    · nofun
    · apply insertLoop_filled
      · decide
      · nofun
  intro chunk member
  obtain ⟨whole, inside, rfl⟩ := List.mem_map.mp member
  exact all whole inside

theorem flatten_chunksOf {data : Bytes} (short : data.length ≤ 2 ^ 20) : (chunksOf data).flatten = data := by
  rcases Decidable.em (data = []) with rfl | filled
  · rfl
  · have room : Limits.default.chunkCount data.length ≤ 262144 := by
      change (data.length + 65536 - 1) / 65536 ≤ 262144
      omega
    have fits : 0 + data.length ≤ 2 ^ 64 - 1 := by omega
    have none : ([] : List BinaryContainerChunk).length + Limits.default.chunkCount data.length ≤ 262144 := by
      rwa [List.length_nil, Nat.zero_add]
    have counted : Counted (empty .default) := ⟨rfl, Nat.two_pow_pos 64⟩
    obtain ⟨c, result, appended⟩ := append_appended counted (by decide) filled fits none
    rw [chunksOf, result]
    exact appended.content

/-- What fits in a chunk is one. -/
theorem chunksOf_eq {data : Bytes} (filled : data ≠ []) (short : data.length ≤ 65536) : chunksOf data = [data] := by
  have noOverflow : overflowSum data.length 0 = false := by
    apply decide_eq_false
    omega
  have fits : ¬2 ^ 64 - 1 < data.length + 0 := by omega
  have whole : data.take (64 * 1024) = data := List.take_of_length_le (by omega)
  have rest : data.drop (64 * 1024) = [] := List.drop_of_length_le (by omega)
  obtain ⟨byte, later, rfl⟩ := List.exists_cons_of_ne_nil filled
  simp only [chunksOf, append, insert, append2, size, empty, Limits.default, noOverflow, Bool.false_eq_true, if_false,
    fits, reduceCtorEq]
  have room : 256 * 1024 - ([] : List BinaryContainerChunk).length = 262143 + 1 := rfl
  rw [room, insertLoop]
  simp only [whole, rest, insertLoop]
  rfl

end BChunks

end Mantids.Memory
