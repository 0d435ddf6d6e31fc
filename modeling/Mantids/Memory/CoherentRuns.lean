import Mantids.Library.Runs
import Mantids.Memory.Coherence
import Mantids.Memory.Search

/-! Edits that take bytes away, and the runs of a container along which its
representation invariant survives. -/

set_option autoImplicit false

namespace Mantids.Memory.BChunks

/-! ## Displacing -/

/-- The chunks that remain when `bytes` are taken from the front, offsets untouched. -/
def cut : List BinaryContainerChunk → Nat → List BinaryContainerChunk
  | [], _ => []
  | first :: rest, bytes =>
    if bytes = 0 then first :: rest
    else if first.size ≤ bytes then cut rest (bytes - first.size)
    else first.displace bytes :: rest

theorem data_displace {chunk : BinaryContainerChunk} {bytes : Nat} (less : bytes < chunk.size) :
    (chunk.displace bytes).data = chunk.data.drop bytes := by
  unfold BinaryContainerChunk.displace
  split
  · simp [*]
  · rw [if_neg (by omega)]

theorem size_displace {chunk : BinaryContainerChunk} {bytes : Nat} (less : bytes < chunk.size) :
    (chunk.displace bytes).size = chunk.size - bytes := by
  rw [BinaryContainerChunk.size, data_displace less, List.length_drop, BinaryContainerChunk.size]

theorem content_cut (chunks : List BinaryContainerChunk) (bytes : Nat) :
    content (cut chunks bytes) = (content chunks).drop bytes := by
  fun_induction cut chunks bytes with
  | case1 => simp
  | case2 => simp
  | case3 first rest bytes _ whole ih =>
    rw [ih, content_cons, List.drop_append, List.drop_eq_nil_of_le whole, List.nil_append]
    rfl
  | case4 first rest bytes _ part =>
    rw [content_cons, content_cons, data_displace (by omega),
      List.drop_append_of_le_length (Nat.le_of_not_le part)]

theorem totalSize_cut (chunks : List BinaryContainerChunk) (bytes : Nat) :
    totalSize (cut chunks bytes) = totalSize chunks - bytes := by
  rw [← length_content, content_cut, List.length_drop, length_content]

theorem nonempty_cut {chunks : List BinaryContainerChunk} (bytes : Nat)
    (nonempty : ∀ chunk ∈ chunks, chunk.size ≠ 0) : ∀ chunk ∈ cut chunks bytes, chunk.size ≠ 0 := by
  fun_induction cut chunks bytes with
  | case1 => exact nonempty
  | case2 => exact nonempty
  | case3 first rest bytes _ _ ih => exact ih fun chunk member => nonempty chunk (.tail _ member)
  | case4 first rest bytes _ part =>
    intro chunk member
    rcases List.mem_cons.mp member with rfl | old
    · rw [size_displace (by omega)]
      omega
    · exact nonempty chunk (.tail _ old)

theorem Sized.cut {c : BChunks} (bytes : Nat) (sized : Sized c) :
    (cut c.chunksVector bytes).length ≤ c.limits.maxChunks ∧
      ∀ chunk ∈ BChunks.cut c.chunksVector bytes, chunk.size ≤ c.limits.maxChunkSize := by
  obtain ⟨chunks, each⟩ := sized
  generalize c.chunksVector = vector at chunks each
  fun_induction BChunks.cut vector bytes with
  | case1 => exact ⟨chunks, each⟩
  | case2 => exact ⟨chunks, each⟩
  | case3 first rest bytes _ _ ih =>
    exact ih (Nat.le_of_succ_le chunks) fun chunk member => each chunk (.tail _ member)
  | case4 first rest bytes _ part =>
    refine ⟨chunks, fun chunk member => ?_⟩
    rcases List.mem_cons.mp member with rfl | old
    · have small := each first (.head _)
      rw [size_displace (by omega)]
      omega
    · exact each chunk (.tail _ old)

/-- Taking from the front leaves at most one chunk when it reaches the last one. -/
theorem length_cut_le_one_iff {chunks : List BinaryContainerChunk}
    (nonempty : ∀ chunk ∈ chunks, chunk.size ≠ 0) (bytes : Nat) :
    (cut chunks bytes).length ≤ 1 ↔
      ∀ last ∈ chunks.getLast?, totalSize chunks - bytes ≤ last.size := by
  induction chunks generalizing bytes with
  | nil => simp [cut]
  | cons first rest ih =>
    cases rest with
    | nil =>
      have shorter : (cut [first] bytes).length ≤ 1 := by
        unfold cut
        split
        · exact Nat.le_refl 1
        · split <;> simp [cut]
      simp [shorter]
    | cons second more =>
      obtain ⟨last, found⟩ : ∃ last, (second :: more).getLast? = some last :=
        ⟨_, List.getLast?_eq_getLast_of_ne_nil (List.cons_ne_nil second more)⟩
      have filled := nonempty first (.head _)
      have within : last.size ≤ totalSize (second :: more) := by
        obtain ⟨front, split⟩ := List.getLast?_eq_some_iff.mp found
        rw [split, totalSize_append, totalSize_cons]
        omega
      rw [List.getLast?_cons_cons, found, totalSize_cons]
      simp only [Option.mem_some_iff, forall_eq']
      rw [cut]
      split
      · simp only [List.length_cons]
        omega
      · split
        · rw [ih (fun chunk member => nonempty chunk (.tail _ member)), found]
          simp only [Option.mem_some_iff, forall_eq']
          omega
        · simp only [List.length_cons]
          omega

theorem decContainerBytesCount_eq {c : BChunks} {bytes : Nat} (word : c.containerBytes < 2 ^ 64)
    (counted : bytes ≤ c.containerBytes) :
    c.decContainerBytesCount bytes = { c with containerBytes := c.containerBytes - bytes } := by
  have wrapped : c.containerBytes + 2 ^ 64 - bytes = c.containerBytes - bytes + 2 ^ 64 := by omega
  rw [decContainerBytesCount, wrapped, Nat.add_mod_right, Nat.mod_eq_of_lt (by omega)]

theorem displaceLoop_eq {chunks : List BinaryContainerChunk} {bytes displaced : Nat} {c : BChunks}
    (enough : bytes ≤ totalSize chunks) (counted : bytes ≤ c.containerBytes)
    (word : c.containerBytes < 2 ^ 64) :
    displaceLoop chunks bytes displaced c = (displaced + bytes,
      { c with
        chunksVector := recalcChunkOffsets (cut chunks bytes)
        containerBytes := c.containerBytes - bytes }) := by
  induction chunks generalizing bytes displaced c with
  | nil =>
    rw [totalSize_nil, Nat.le_zero] at enough
    subst enough
    rfl
  | cons first rest ih =>
    rw [displaceLoop, cut]
    split
    · rename_i zero
      subst zero
      rfl
    · split
      · rename_i whole
        rw [totalSize_cons] at enough
        rw [decContainerBytesCount_eq word (Nat.le_trans whole counted),
          ih (by omega) (Nat.sub_le_sub_right counted _) (Nat.lt_of_le_of_lt (Nat.sub_le _ _) word)]
        simp only [Nat.sub_sub, Nat.add_assoc, Nat.add_sub_cancel' whole]
      · rw [decContainerBytesCount_eq word counted]

/-- A displace leaves `size() - bytes` bytes, behind offsets that are right for one chunk only. -/
theorem displace_eq {c : BChunks} (counted : Counted c) (bytes : Nat) :
    c.displace bytes = ((true, min bytes c.size), { c with
      chunksVector := recalcChunkOffsets (cut c.chunksVector (min bytes c.size))
      containerBytes := c.size - min bytes c.size }) := by
  have clamped : (if c.size < bytes then c.size else bytes) = min bytes c.size := by
    split <;> omega
  have bytesCounted := counted.bytes
  unfold size
  rw [displace, clamped, displace2, displaceLoop_eq (by unfold size; omega) (by unfold size; omega) counted.word]
  simp [size]

theorem displace_coherent_iff {c : BChunks} (coherent : Coherent c) (sized : Sized c) (bytes : Nat) :
    Coherent (c.displace bytes).2 ↔ ∀ last ∈ c.chunksVector.getLast?, c.size - bytes ≤ last.size := by
  have counted : totalSize c.chunksVector = c.size := coherent.counted.symm
  have left : totalSize c.chunksVector - min bytes c.size = c.size - bytes := by omega
  have short := length_cut_le_one_iff coherent.nonempty (min bytes c.size)
  rw [left] at short
  rw [displace_eq coherent.isCounted, ← short]
  have filled := nonempty_cut (min bytes c.size) coherent.nonempty
  have total := totalSize_cut c.chunksVector (min bytes c.size)
  obtain ⟨chunks, each⟩ := sized.cut (min bytes c.size)
  cases kept : cut c.chunksVector (min bytes c.size) with
  | nil =>
    refine iff_of_true (coherent_of_empty rfl ?_) (Nat.zero_le 1)
    simp only [kept, totalSize_nil] at total
    simp only
    omega
  | cons first rest =>
    rw [kept] at filled total chunks each
    cases rest with
    | nil =>
      refine iff_of_true (.of ?_ ?_ ?_ ?_) (Nat.le_refl 1)
      · simp [recalcChunkOffsets_cons, OffsetsFrom]
      · simpa [recalcChunkOffsets_cons, BinaryContainerChunk.size] using filled
      · simp [recalcChunkOffsets_cons, BinaryContainerChunk.size] at total ⊢
        omega
      · have word := coherent.word
        simp only [size]
        omega
    | cons second more =>
      refine iff_of_false (not_coherent_of_recalc ?_ rfl) (by simp)
      exact Sized.recalc (c := { c with containerBytes := _ }) ⟨chunks, each⟩

/-! ## Truncating and clearing -/

theorem truncate_chunk {chunk : BinaryContainerChunk} {bytes : Nat} (after : chunk.offset < bytes)
    (before : bytes < chunk.nextOffset) :
    chunk.truncate bytes = ⟨chunk.data.take (bytes - chunk.offset), chunk.offset⟩ := by
  rw [BinaryContainerChunk.truncate, if_neg (by omega), if_neg (by omega)]

/-- Truncating keeps the chunks before the one that holds the offset and what it has before it. -/
theorem truncate_coherent {c : BChunks} (coherent : Coherent c) (bytes : Nat) :
    Coherent (c.truncate bytes).2 := by
  unfold truncate
  split
  · exact coherent
  rename_i inside
  have offsets := coherent.offsets
  have word : totalSize c.chunksVector < 2 ^ 64 := coherent.counted ▸ coherent.word
  have less : bytes < totalSize c.chunksVector := by
    have counted := coherent.counted
    unfold size at inside
    omega
  obtain ⟨pos, found, holds⟩ := iChunkGetPosForOffset_found offsets word less
  have bound := holds.bound
  have start := offsets.getElem bound
  have stop := nextOffset_getElem offsets word bound
  have short : bytes < 2 ^ 64 := Nat.lt_trans (Nat.lt_of_not_le inside) coherent.word
  have front : OffsetsFrom 0 (c.chunksVector.take pos) := by
    rw [← List.take_append_drop pos c.chunksVector] at offsets
    exact ((offsetsFrom_append 0 _ _).mp offsets).1
  have filled : ∀ chunk ∈ c.chunksVector.take pos, chunk.size ≠ 0 :=
    fun chunk member => coherent.nonempty chunk (List.mem_of_mem_take member)
  rw [Nat.zero_add] at start
  simp only [truncate2, found, List.getElem?_eq_getElem bound]
  split
  · rename_i border
    exact .of front filled (border.symm.trans start) short
  · rename_i within
    have after : c.chunksVector[pos].offset < bytes := by
      have := holds.start
      omega
    rw [truncate_chunk after (stop ▸ holds.stop)]
    have room : bytes < totalSize (c.chunksVector.take pos) + c.chunksVector[pos].size :=
      totalSize_take_succ bound ▸ holds.stop
    have left : (c.chunksVector[pos].data.take (bytes - c.chunksVector[pos].offset)).length
        = bytes - c.chunksVector[pos].offset := by
      rw [List.length_take, Nat.min_eq_left]
      unfold BinaryContainerChunk.size at room
      omega
    refine .of ((offsetsFrom_append 0 _ _).mpr ⟨front, ?_, trivial⟩) ?_ ?_ short
    · simpa using start
    · intro chunk member
      rcases List.mem_append.mp member with old | new
      · exact filled chunk old
      · rw [List.mem_singleton.mp new, BinaryContainerChunk.size, left]
        omega
    · simp only [totalSize_append, totalSize_cons, totalSize_nil, BinaryContainerChunk.size, left]
      omega

/-- What is kept is the front of the content. -/
theorem content_truncate {c : BChunks} (coherent : Coherent c) {bytes : Nat} (less : bytes < c.size) :
    ∃ c', c.truncate bytes = ((true, bytes), c') ∧
      content c'.chunksVector = (content c.chunksVector).take bytes := by
  have offsets := coherent.offsets
  have word : totalSize c.chunksVector < 2 ^ 64 := coherent.counted ▸ coherent.word
  have inside : bytes < totalSize c.chunksVector := coherent.counted ▸ less
  obtain ⟨pos, found, holds⟩ := iChunkGetPosForOffset_found offsets word inside
  have bound := holds.bound
  have start := offsets.getElem bound
  have stop := nextOffset_getElem offsets word bound
  have before := holds.start
  have parts : content c.chunksVector = content (c.chunksVector.take pos) ++ content (c.chunksVector.drop pos) := by
    rw [← content_append, List.take_append_drop]
  have front : (content (c.chunksVector.take pos)).length = totalSize (c.chunksVector.take pos) := length_content _
  rw [Nat.zero_add] at start
  unfold truncate
  rw [if_neg (Nat.not_le.mpr less)]
  simp only [truncate2, found, List.getElem?_eq_getElem bound]
  by_cases border : c.chunksVector[pos].offset = bytes
  · have whole : (content (c.chunksVector.take pos)).length = bytes := by omega
    simp only [if_pos border]
    refine ⟨_, rfl, ?_⟩
    rw [parts]
    exact (List.take_left' whole).symm
  · have after : c.chunksVector[pos].offset < bytes := by omega
    have room : bytes - c.chunksVector[pos].offset ≤ c.chunksVector[pos].data.length := by
      have last := holds.stop
      rw [totalSize_take_succ bound, BinaryContainerChunk.size] at last
      omega
    have all : (content (c.chunksVector.take pos)).length ≤ bytes := by omega
    simp only [if_neg border]
    refine ⟨_, rfl, ?_⟩
    rw [truncate_chunk after (stop ▸ holds.stop), parts, List.take_append, List.take_of_length_le all,
      List.drop_eq_getElem_cons bound, content_append, content_cons, content_nil, List.append_nil, content_cons,
      front, ← start, List.take_append_of_le_length room]

theorem Sized.truncate {c : BChunks} (sized : Sized c) (bytes : Nat) : Sized (c.truncate bytes).2 := by
  unfold BChunks.truncate
  split
  · exact sized
  unfold truncate2
  split
  case h_2 => exact sized
  rename_i pos found
  split
  · exact sized
  rename_i chunk held
  obtain ⟨bound, same⟩ := List.getElem?_eq_some_iff.mp held
  have few := sized.chunks
  have front : ∀ chunk ∈ c.chunksVector.take pos, chunk.size ≤ c.limits.maxChunkSize :=
    fun chunk member => sized.each chunk (List.mem_of_mem_take member)
  split
  · exact ⟨by simp only [List.length_take]; omega, front⟩
  · refine ⟨by simp only [List.length_append, List.length_take, List.length_singleton]; omega, ?_⟩
    intro piece member
    rcases List.mem_append.mp member with old | new
    · exact front piece old
    · have small := sized.each chunk (same ▸ List.getElem_mem bound)
      have less : (chunk.truncate bytes).size ≤ chunk.size := by
        unfold BinaryContainerChunk.truncate BinaryContainerChunk.size
        split
        · exact Nat.le_refl _
        · split
          · exact Nat.le_refl _
          · exact List.length_take_le' _ _
      rw [List.mem_singleton.mp new]
      exact Nat.le_trans less small

theorem Sized.displace {c : BChunks} (coherent : Coherent c) (sized : Sized c) (bytes : Nat) :
    Sized (c.displace bytes).2 := by
  obtain ⟨chunks, each⟩ := sized.cut (min bytes c.size)
  rw [displace_eq coherent.isCounted]
  exact Sized.recalc (c := { c with containerBytes := _ }) ⟨chunks, each⟩

/-! ## Runs -/

/-- The condition under which an edit of a coherent container leaves it coherent:
nothing gets in front of another chunk, and displacing reaches the last chunk. -/
def Keeps (c : BChunks) : Edit → Prop
  | .append buf =>
    Accepts c buf → c.chunksVector.length < c.limits.maxChunks → c.limits.maxChunkSize ≠ 0
  | .prepend buf =>
    Accepts c buf → c.chunksVector.length < c.limits.maxChunks →
      c.limits.maxChunkSize ≠ 0 ∧ c.chunksVector = [] ∧
        (buf.length ≤ c.limits.maxChunkSize ∨ c.limits.maxChunks = 1)
  | .displace bytes => ∀ last ∈ c.chunksVector.getLast?, c.size - bytes ≤ last.size
  | .truncate _ => True
  | .clear => True

instance (c : BChunks) : (e : Edit) → Decidable (Keeps c e)
  | .append _ => inferInstanceAs (Decidable (_ → _ → _ ≠ _))
  | .prepend _ => inferInstanceAs (Decidable (_ → _ → _ ≠ _ ∧ _ ∧ (_ ∨ _)))
  | .displace _ => inferInstanceAs (Decidable (∀ _ ∈ _, _ ≤ _))
  | .truncate _ => isTrue trivial
  | .clear => isTrue trivial

theorem edit_sized {c : BChunks} (coherent : Coherent c) (sized : Sized c) (e : Edit) :
    Sized (edit c e) := by
  cases e with
  | append buf => exact sized.insert false buf
  | prepend buf => exact sized.insert true buf
  | displace bytes => exact sized.displace coherent bytes
  | truncate bytes => exact sized.truncate bytes
  | clear => exact ⟨Nat.zero_le _, by simp [edit, clear]⟩

theorem edit_coherent_iff {c : BChunks} (coherent : Coherent c) (sized : Sized c) (e : Edit) :
    Coherent (edit c e) ↔ Keeps c e := by
  cases e with
  | append buf => exact append_coherent_iff coherent buf
  | prepend buf => exact prepend_coherent_iff coherent sized buf
  | displace bytes => exact displace_coherent_iff coherent sized bytes
  | truncate bytes => exact iff_true_intro (truncate_coherent coherent bytes)
  | clear => exact iff_true_intro (coherent_of_empty rfl rfl)

theorem sized_empty (limits : Limits) : Sized (empty limits) :=
  ⟨Nat.zero_le _, by simp [empty]⟩

/-- The representation invariant holds all along a run from the empty container
exactly when every edit of the run is taken where it keeps the invariant. -/
theorem coherent_run_iff (limits : Limits) (run : List Edit) :
    (∀ c ∈ Library.visited edit (empty limits) run, Coherent c) ↔
      Library.Along edit Keeps (empty limits) run := by
  have start : Coherent (empty limits) := coherent_of_empty rfl rfl
  rw [Library.visited_iff_along, and_iff_right start]
  refine Library.along_iff (fun c => Coherent c ∧ Sized c) ?_ ?_ _ run ⟨start, sized_empty limits⟩
  · rintro c e ⟨coherent, sized⟩
    exact edit_coherent_iff coherent sized e
  · rintro c e ⟨coherent, sized⟩ after
    exact ⟨after, edit_sized coherent sized e⟩

example : Library.Along edit Keeps (empty .default)
    [.append [1, 2, 3], .displace 1, .append [4], .truncate 3, .displace 2] := by decide

/-- Three one-byte appends and a displace leave two chunks and the first of them at offset one. -/
theorem coherent_run_fails :
    ¬∀ limits run, ∀ c ∈ Library.visited edit (empty limits) run, Coherent c := by
  intro all
  have last := all .default [.append [1], .append [2], .append [3], .displace 1]
    (edit (edit (edit (edit (empty .default) (.append [1])) (.append [2])) (.append [3])) (.displace 1))
    (by simp [Library.visited])
  have start := last.contiguous 0 (by decide)
  revert start
  decide

end Mantids.Memory.BChunks
