import Mantids.Memory.Chunks

/-! The offset search of `I_Chunk_GetPosForOffset` on a vector with contiguous
offsets: it stays inside its bounds and ends at the chunk that holds the offset. -/

set_option autoImplicit false

namespace Mantids.Memory.BChunks

/-- The position of the chunk that holds `offset`. -/
structure Holds (chunks : List BinaryContainerChunk) (offset pos : Nat) : Prop where
  bound : pos < chunks.length
  start : totalSize (chunks.take pos) ≤ offset
  stop : offset < totalSize (chunks.take (pos + 1))

theorem totalSize_take_mono (chunks : List BinaryContainerChunk) {i j : Nat} (le : i ≤ j) :
    totalSize (chunks.take i) ≤ totalSize (chunks.take j) := by
  rw [← Nat.min_eq_left le, ← List.take_take]
  exact totalSize_take_le _ i

theorem Holds.le {chunks : List BinaryContainerChunk} {offset i j : Nat}
    (first : Holds chunks offset i) (second : Holds chunks offset j) : i ≤ j := by
  by_contra less
  have between := totalSize_take_mono chunks (show j + 1 ≤ i by omega)
  have start := first.start
  have stop := second.stop
  omega

theorem Holds.unique {chunks : List BinaryContainerChunk} {offset i j : Nat}
    (first : Holds chunks offset i) (second : Holds chunks offset j) : i = j :=
  Nat.le_antisymm (first.le second) (second.le first)

theorem nextOffset_getElem {chunks : List BinaryContainerChunk} (offsets : OffsetsFrom 0 chunks)
    (word : totalSize chunks < 2 ^ 64) {i : Nat} (bound : i < chunks.length) :
    chunks[i].nextOffset = totalSize (chunks.take (i + 1)) := by
  have start := offsets.getElem bound
  have stop := totalSize_take_le chunks (i + 1)
  rw [totalSize_take_succ bound] at stop ⊢
  rw [BinaryContainerChunk.nextOffset, start, Nat.zero_add, Nat.add_comm]
  exact Nat.mod_eq_of_lt (by omega)

theorem middle_bounds {curmin curmax : Nat} (le : curmin ≤ curmax) :
    curmin ≤ middle curmin curmax ∧ middle curmin curmax ≤ curmax := by
  unfold middle
  split <;> omega

/-- Each recursion drops at least the position it looked at, and the window keeps the offset. -/
theorem searchFrom_spec {chunks : List BinaryContainerChunk} (offsets : OffsetsFrom 0 chunks)
    (word : totalSize chunks < 2 ^ 64) {offset fuel curpos curmax curmin : Nat}
    (above : curmin ≤ curpos) (below : curpos ≤ curmax) (bound : curmax < chunks.length)
    (enough : curmax - curmin < fuel) (start : totalSize (chunks.take curmin) ≤ offset)
    (stop : offset < totalSize (chunks.take (curmax + 1)) ∨ totalSize chunks ≤ offset) :
    (∃ pos, searchFrom chunks offset fuel curpos curmax curmin = .found pos ∧ Holds chunks offset pos) ∨
      searchFrom chunks offset fuel curpos curmax curmin = .missing ∧ totalSize chunks ≤ offset := by
  induction fuel generalizing curpos curmax curmin with
  | zero => omega
  | succ fuel ih =>
    have inside : curpos < chunks.length := by omega
    have offsetAt := offsets.getElem inside
    have nextAt := nextOffset_getElem offsets word inside
    rw [Nat.zero_add] at offsetAt
    simp only [searchFrom, List.getElem?_eq_getElem inside, BinaryContainerChunk.containsOffset,
      offsetAt, nextAt, decide_eq_true_eq]
    by_cases here : totalSize (chunks.take curpos) ≤ offset ∧ offset < totalSize (chunks.take (curpos + 1))
    · exact .inl ⟨curpos, if_pos here, inside, here.1, here.2⟩
    rw [if_neg here]
    by_cases down : offset < totalSize (chunks.take curpos)
    · -- the window's lower end is at or before the offset, so it is not this chunk
      have notFirst : curpos ≠ curmin := by rintro rfl; omega
      have middle := middle_bounds (show curmin ≤ curpos - 1 by omega)
      rw [if_pos down, if_neg notFirst]
      refine ih middle.1 middle.2 (by omega) (by omega) start (.inl ?_)
      rwa [Nat.sub_add_cancel (by omega)]
    · have past : totalSize (chunks.take (curpos + 1)) ≤ offset := by omega
      rw [if_neg down]
      by_cases last : curpos = curmax
      · refine .inr ⟨if_pos last, ?_⟩
        subst last
        exact stop.resolve_left (by omega)
      · have middle := middle_bounds (show curpos + 1 ≤ curmax by omega)
        rw [if_neg last]
        exact ih middle.1 middle.2 bound (by omega) past stop

theorem iChunkGetPosForOffset_spec {chunks : List BinaryContainerChunk} (offsets : OffsetsFrom 0 chunks)
    (word : totalSize chunks < 2 ^ 64) (offset : Nat) :
    (∃ pos, iChunkGetPosForOffset chunks offset = .found pos ∧ Holds chunks offset pos) ∨
      iChunkGetPosForOffset chunks offset = .missing ∧ totalSize chunks ≤ offset := by
  unfold iChunkGetPosForOffset
  by_cases bare : chunks.length = 0
  · rw [if_pos bare, List.length_eq_zero_iff.mp bare]
    exact .inr ⟨rfl, Nat.zero_le _⟩
  have whole : totalSize (chunks.take (chunks.length - 1 + 1)) = totalSize chunks := by
    rw [Nat.sub_add_cancel (by omega), List.take_length]
  have stop : offset < totalSize (chunks.take (chunks.length - 1 + 1)) ∨ totalSize chunks ≤ offset := by
    omega
  rw [if_neg bare]
  split
  · rename_i single
    exact searchFrom_spec offsets word (Nat.le_refl _) (Nat.le_refl _) (by omega) (by omega)
      (by simp) (by simpa [single] using stop)
  · exact searchFrom_spec offsets word (Nat.zero_le _) (by omega) (by omega) (by omega)
      (by simp) stop

/-- Below the total size the search finds the one chunk that holds the offset. -/
theorem iChunkGetPosForOffset_found {chunks : List BinaryContainerChunk} (offsets : OffsetsFrom 0 chunks)
    (word : totalSize chunks < 2 ^ 64) {offset : Nat} (inside : offset < totalSize chunks) :
    ∃ pos, iChunkGetPosForOffset chunks offset = .found pos ∧ Holds chunks offset pos := by
  rcases iChunkGetPosForOffset_spec offsets word offset with found | ⟨_, past⟩
  · exact found
  · omega

end Mantids.Memory.BChunks
