import Mantids.Memory.Access
import Mantids.Memory.CoherentRuns
import Mantids.Memory.Append

/-! Where the offsets are right, copying out copies the content; what displacing and
appending leave of it, right offsets or not. -/

set_option autoImplicit false

namespace Mantids.Memory.BChunks

theorem copyOutLoop_eq (chunks : List BinaryContainerChunk) (bytes : Nat) :
    copyOutLoop chunks bytes = (content chunks).take bytes := by
  induction chunks generalizing bytes with
  | nil => simp [copyOutLoop]
  | cons currentChunk rest ih =>
    rw [copyOutLoop, content_cons, List.take_append]
    split
    · rename_i more
      rw [ih, List.take_of_length_le (Nat.le_of_lt more)]
      rfl
    · rename_i inside
      have nothing : bytes - currentChunk.data.length = 0 := Nat.sub_eq_zero_of_le (Nat.not_lt.mp inside)
      rw [nothing, List.take_zero, List.append_nil]

theorem flatten_copyChunks (chunks : List BinaryContainerChunk) (dataToCopy : Nat) :
    (copyChunks chunks dataToCopy).flatten = (content chunks).take dataToCopy := by
  induction chunks generalizing dataToCopy with
  | nil => simp [copyChunks]
  | cons currentChunk rest ih =>
    simp only [copyChunks, content_cons, List.take_append, List.length_take]
    split
    · rename_i done
      have nothing : dataToCopy - currentChunk.data.length = 0 := by omega
      rw [nothing, List.take_zero, List.append_nil, List.flatten_singleton]
    · have left : dataToCopy - min dataToCopy currentChunk.data.length = dataToCopy - currentChunk.data.length := by
        omega
      rw [List.flatten_cons, ih, left]

theorem content_take (chunks : List BinaryContainerChunk) (pos : Nat) :
    (content chunks).drop (totalSize (chunks.take pos)) = content (chunks.drop pos) := by
  have split : content chunks = content (chunks.take pos) ++ content (chunks.drop pos) := by
    rw [← content_append, List.take_append_drop]
  rw [split, ← length_content, List.drop_left' rfl]

theorem copyOut_eq {c : BChunks} (coherent : Coherent c) {bytes offset : Nat} (some : bytes ≠ 0)
    (fits : offset + bytes ≤ c.size) :
    c.copyOut bytes offset = .some (((content c.chunksVector).drop offset).take bytes) := by
  have word := coherent.word
  have counted := coherent.counted
  have below : c.size < 2 ^ 64 := word
  have sum : overflowSum offset bytes = false := decide_eq_false (by omega)
  have inside : offset < totalSize c.chunksVector := by
    rw [← counted]
    exact Nat.lt_of_lt_of_le (by omega) fits
  obtain ⟨pos, found, holds⟩ := iChunkGetPosForOffset_found coherent.offsets (counted ▸ word) inside
  have bound := holds.bound
  have rest : c.chunksVector.drop pos = c.chunksVector[pos] :: c.chunksVector.drop (pos + 1) :=
    List.drop_eq_getElem_cons bound
  have start := coherent.offsets.getElem bound
  have stop := holds.stop
  rw [totalSize_take_succ bound] at stop
  have left : offset - totalSize (c.chunksVector.take pos) ≤ c.chunksVector[pos].data.length := by
    unfold BinaryContainerChunk.size at stop
    omega
  rw [copyOut, sum, if_neg Bool.false_ne_true, if_neg some, if_neg (by omega), found]
  simp only [rest]
  rw [copyOutLoop_eq, content_cons, BinaryContainerChunk.moveToOffset, start, Nat.zero_add,
    ← List.drop_append_of_le_length left, ← content_cons, ← rest, ← content_take, List.drop_drop,
    Nat.add_sub_cancel' holds.start]

theorem nonempty_insertLoop {c : BChunks} (positive : c.limits.maxChunkSize ≠ 0)
    (nonempty : ∀ chunk ∈ c.chunksVector, chunk.size ≠ 0) (room : Nat) (buf : Bytes) (appended : Nat) :
    ∀ chunk ∈ (insertLoop false room buf appended c).2.chunksVector, chunk.size ≠ 0 := by
  fun_induction insertLoop false room buf appended c with
  | case1 => exact nonempty
  | case2 => exact nonempty
  | case3 room byte rest appended c chunk ih =>
    apply ih positive
    intro member inside
    rcases mem_insertChunk inside with new | old
    · rw [BinaryContainerChunk.size, new]
      simp [chunk, positive]
    · exact nonempty member old

theorem nonempty_append {c : BChunks} (positive : c.limits.maxChunkSize ≠ 0)
    (nonempty : ∀ chunk ∈ c.chunksVector, chunk.size ≠ 0) (buf : Bytes) :
    ∀ chunk ∈ (c.append buf).2.chunksVector, chunk.size ≠ 0 := by
  by_cases accepts : Accepts c buf
  · rw [append, insert_of_accepts false accepts]
    exact nonempty_insertLoop positive nonempty _ buf 0
  · rw [append, insert_of_not_accepts false accepts]
    exact nonempty

theorem limits_insertLoop (c : BChunks) (room : Nat) (buf : Bytes) (appended : Nat) :
    (insertLoop false room buf appended c).2.limits = c.limits := by
  fun_induction insertLoop false room buf appended c with
  | case1 => rfl
  | case2 => rfl
  | case3 room byte rest appended c chunk ih => rw [ih, limits_insertChunk]

theorem limits_append (c : BChunks) (buf : Bytes) : (c.append buf).2.limits = c.limits := by
  by_cases accepts : Accepts c buf
  · rw [append, insert_of_accepts false accepts]
    exact limits_insertLoop c _ buf 0
  · rw [append, insert_of_not_accepts false accepts]

theorem length_le_of_nonempty {chunks : List BinaryContainerChunk} (nonempty : ∀ chunk ∈ chunks, chunk.size ≠ 0) :
    chunks.length ≤ totalSize chunks := by
  induction chunks with
  | nil => exact Nat.zero_le _
  | cons first rest ih =>
    have some := nonempty first (.head _)
    have more := ih fun chunk later => nonempty chunk (.tail _ later)
    rw [List.length_cons, totalSize_cons]
    omega

theorem nonempty_recalc {chunks : List BinaryContainerChunk} (nonempty : ∀ chunk ∈ chunks, chunk.size ≠ 0) :
    ∀ chunk ∈ recalcChunkOffsets chunks, chunk.size ≠ 0 := by
  cases chunks with
  | nil => exact nonempty
  | cons first rest =>
    rw [recalcChunkOffsets_cons]
    rw [List.forall_mem_cons] at nonempty ⊢
    exact nonempty

end Mantids.Memory.BChunks
