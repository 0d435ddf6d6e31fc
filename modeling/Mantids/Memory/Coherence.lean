import Mantids.Library.Runs
import Mantids.Memory.Chunks

/-! The representation invariant of the chunked container, and which edits keep it.

Reads by offset search the chunk vector, so they rely on the offsets that the
edits maintain; `recalcChunkOffsets` is the only repair after an edit in front. -/

set_option autoImplicit false

namespace Mantids.Memory.BChunks

/-- Offsets contiguous from zero up to `size()`, no empty chunk, an exact byte count. -/
structure Coherent (c : BChunks) : Prop where
  contiguous : ∀ i (bound : i < c.chunksVector.length),
    c.chunksVector[i].offset = totalSize (c.chunksVector.take i)
  closed : ∀ last ∈ c.chunksVector.getLast?, last.nextOffset = c.size
  nonempty : ∀ chunk ∈ c.chunksVector, chunk.size ≠ 0
  counted : c.containerBytes = totalSize c.chunksVector
  word : c.containerBytes < 2 ^ 64

theorem Coherent.isCounted {c : BChunks} (coherent : Coherent c) : Counted c :=
  ⟨coherent.counted, coherent.word⟩

theorem Coherent.offsets {c : BChunks} (coherent : Coherent c) : OffsetsFrom 0 c.chunksVector :=
  (offsetsFrom_iff 0 _).mpr fun i bound => by simpa using coherent.contiguous i bound

theorem last_nextOffset {chunks : List BinaryContainerChunk} (offsets : OffsetsFrom 0 chunks)
    (word : totalSize chunks < 2 ^ 64) :
    ∀ last ∈ chunks.getLast?, last.nextOffset = totalSize chunks := by
  intro last found
  obtain ⟨front, rfl⟩ := List.getLast?_eq_some_iff.mp found
  obtain ⟨_, start, _⟩ := (offsetsFrom_append 0 front [last]).mp offsets
  simp only [totalSize_append, totalSize_cons, totalSize_nil] at word ⊢
  rw [BinaryContainerChunk.nextOffset, start, Nat.mod_eq_of_lt (by omega)]
  omega

theorem Coherent.of {c : BChunks} (offsets : OffsetsFrom 0 c.chunksVector)
    (nonempty : ∀ chunk ∈ c.chunksVector, chunk.size ≠ 0)
    (counted : c.containerBytes = totalSize c.chunksVector) (word : c.containerBytes < 2 ^ 64) :
    Coherent c where
  contiguous i bound := by simpa using offsets.getElem bound
  closed last found := by
    rw [last_nextOffset offsets (counted ▸ word) last found, size, counted]
  nonempty := nonempty
  counted := counted
  word := word

theorem coherent_of_empty {c : BChunks} (bare : c.chunksVector = []) (zero : c.containerBytes = 0) :
    Coherent c :=
  .of (by simp [bare, OffsetsFrom]) (by simp [bare]) (by simp [bare, zero]) (by simp [zero])

/-- The vector respects the container's limits, coherent or not. -/
structure Sized (c : BChunks) : Prop where
  chunks : c.chunksVector.length ≤ c.limits.maxChunks
  each : ∀ chunk ∈ c.chunksVector, chunk.size ≤ c.limits.maxChunkSize

/-! ## Recalculating the offsets -/

theorem recalcLoop_eq (turns currentOffset : Nat) (i : BinaryContainerChunk)
    (word : currentOffset < 2 ^ 64) :
    recalcLoop (turns + 1) currentOffset i = ⟨i.data, (turns * i.size + currentOffset) % 2 ^ 64⟩ := by
  induction turns generalizing currentOffset i with
  | zero => rw [recalcLoop, recalcLoop, Nat.zero_mul, Nat.zero_add, Nat.mod_eq_of_lt word]
  | succ turns ih =>
    have next := ih ((i.size + currentOffset) % 2 ^ 64) { i with offset := currentOffset }
      (Nat.mod_lt _ (by decide))
    rw [recalcLoop]
    refine next.trans ?_
    simp only [BinaryContainerChunk.size, Nat.add_mod_mod, BinaryContainerChunk.mk.injEq, true_and]
    rw [Nat.succ_mul, Nat.add_assoc]

theorem recalcChunkOffsets_cons (first : BinaryContainerChunk) (rest : List BinaryContainerChunk) :
    recalcChunkOffsets (first :: rest) =
      ⟨first.data, (rest.length * first.size) % 2 ^ 64⟩ :: rest := by
  rw [recalcChunkOffsets, recalcLoop_eq rest.length 0 first (by decide), Nat.add_zero]

@[simp] theorem length_recalcChunkOffsets (chunks : List BinaryContainerChunk) :
    (recalcChunkOffsets chunks).length = chunks.length := by
  cases chunks <;> simp [recalcChunkOffsets]

@[simp] theorem content_recalcChunkOffsets (chunks : List BinaryContainerChunk) :
    content (recalcChunkOffsets chunks) = content chunks := by
  cases chunks with
  | nil => rfl
  | cons first rest => simp [recalcChunkOffsets_cons]

@[simp] theorem map_data_recalcChunkOffsets (chunks : List BinaryContainerChunk) :
    (recalcChunkOffsets chunks).map (·.data) = chunks.map (·.data) := by
  cases chunks with
  | nil => rfl
  | cons first rest => simp [recalcChunkOffsets_cons]

/-- With a second chunk behind it, the first one does not end up at offset zero. -/
theorem not_coherent_of_recalc {c : BChunks} {first second : BinaryContainerChunk}
    {rest : List BinaryContainerChunk} (sized : Sized c)
    (vector : c.chunksVector = recalcChunkOffsets (first :: second :: rest)) : ¬Coherent c := by
  intro coherent
  rw [recalcChunkOffsets_cons] at vector
  have head : (⟨first.data, ((second :: rest).length * first.size) % 2 ^ 64⟩ : BinaryContainerChunk)
      ∈ c.chunksVector := by simp [vector]
  have filled : first.size ≠ 0 := by
    simpa [BinaryContainerChunk.size] using coherent.nonempty _ head
  have few := sized.chunks
  have small : first.size ≤ c.limits.maxChunkSize := by
    simpa [BinaryContainerChunk.size] using sized.each _ head
  have zero : ((second :: rest).length * first.size) % 2 ^ 64 = 0 := by
    have start := coherent.offsets
    rw [vector] at start
    exact start.1
  have product : (second :: rest).length * first.size < 2 ^ 64 := by
    have chunks := c.limits.chunks_word
    have chunkSize := c.limits.chunkSize_word
    simp only [vector, List.length_cons] at few
    calc (second :: rest).length * first.size ≤ 2 ^ 32 * first.size :=
          Nat.mul_le_mul_right _ (by simp only [List.length_cons]; omega)
      _ < 2 ^ 32 * 2 ^ 32 := Nat.mul_lt_mul_of_pos_left (by omega) (by decide)
      _ = 2 ^ 64 := by decide
  rw [Nat.mod_eq_of_lt product, Nat.mul_eq_zero] at zero
  exact zero.elim (Nat.succ_ne_zero _) filled

/-- A chunk right behind the first one cannot start at zero. -/
theorem not_coherent_of_second {c : BChunks} {first second : BinaryContainerChunk}
    {rest : List BinaryContainerChunk} (vector : c.chunksVector = first :: second :: rest)
    (zero : second.offset = 0) : ¬Coherent c := by
  intro coherent
  have filled := coherent.nonempty first (by simp [vector])
  have start := coherent.offsets
  rw [vector] at start
  have next := start.2.1
  omega

/-! ## Insertion -/

@[simp] theorem limits_insertChunk (prependMode : Bool) (c : BChunks) (buf : Bytes) :
    (insertChunk prependMode c buf).limits = c.limits := rfl

theorem containerBytes_insertChunk {prependMode : Bool} {c : BChunks} {buf : Bytes}
    (word : buf.length + c.size < 2 ^ 64) :
    (insertChunk prependMode c buf).containerBytes = c.containerBytes + buf.length :=
  Nat.mod_eq_of_lt (by unfold size at word; simp only; omega)

@[simp] theorem length_insertChunk (prependMode : Bool) (c : BChunks) (buf : Bytes) :
    (insertChunk prependMode c buf).chunksVector.length = c.chunksVector.length + 1 := by
  cases prependMode <;> simp [insertChunk, incContainerBytesCount]

theorem mem_insertChunk {prependMode : Bool} {c : BChunks} {buf : Bytes} {chunk : BinaryContainerChunk}
    (member : chunk ∈ (insertChunk prependMode c buf).chunksVector) :
    chunk.data = buf ∨ chunk ∈ c.chunksVector := by
  cases prependMode with
  | false =>
    rcases List.mem_append.mp member with old | new
    · exact .inr old
    · exact .inl (by rw [List.mem_singleton.mp new])
  | true =>
    rcases List.mem_cons.mp member with new | old
    · exact .inl (by rw [new])
    · exact .inr old

theorem Sized.insertChunk {c : BChunks} {buf : Bytes} (prependMode : Bool) (sized : Sized c)
    (room : c.chunksVector.length < c.limits.maxChunks) (fits : buf.length ≤ c.limits.maxChunkSize) :
    Sized (insertChunk prependMode c buf) where
  chunks := by simpa using Nat.succ_le_of_lt room
  each chunk member := by
    rcases mem_insertChunk member with same | old
    · simpa [BinaryContainerChunk.size, same] using fits
    · exact sized.each chunk old

theorem Sized.recalc {c : BChunks} {chunks : List BinaryContainerChunk}
    (sized : Sized { c with chunksVector := chunks }) :
    Sized { c with chunksVector := recalcChunkOffsets chunks } where
  chunks := by simpa using sized.chunks
  each chunk member := by
    have data : chunk.data ∈ chunks.map (·.data) := by
      rw [← map_data_recalcChunkOffsets]
      exact List.mem_map_of_mem member
    obtain ⟨old, found, same⟩ := List.mem_map.mp data
    simpa [BinaryContainerChunk.size, same] using sized.each old found

theorem Sized.insertLoop {c : BChunks} (prependMode : Bool) (room : Nat) (buf : Bytes) (appended : Nat)
    (sized : Sized c) (left : c.chunksVector.length + room ≤ c.limits.maxChunks) :
    Sized (insertLoop prependMode room buf appended c).2 := by
  fun_induction BChunks.insertLoop prependMode room buf appended c with
  | case1 => cases prependMode <;> [exact sized; exact Sized.recalc sized]
  | case2 => exact sized
  | case3 room byte rest appended c chunk ih =>
    refine ih (sized.insertChunk prependMode (by omega) (List.length_take_le _ _)) ?_
    rw [length_insertChunk, limits_insertChunk]
    omega

/-- An accepted buffer is not empty, does not overflow and does not exceed `maxSize`. -/
def Accepts (c : BChunks) (buf : Bytes) : Prop :=
  buf ≠ [] ∧ buf.length + c.size < 2 ^ 64 ∧ buf.length + c.size ≤ c.limits.maxSize

instance (c : BChunks) (buf : Bytes) : Decidable (Accepts c buf) :=
  inferInstanceAs (Decidable (_ ∧ _ ∧ _))

theorem insert_of_accepts {c : BChunks} {buf : Bytes} (prependMode : Bool) (accepts : Accepts c buf) :
    insert prependMode c buf =
      insertLoop prependMode (c.limits.maxChunks - c.chunksVector.length) buf 0 c := by
  obtain ⟨some, word, small⟩ := accepts
  have fits : overflowSum buf.length c.size = false := decide_eq_false (Nat.not_le.mpr word)
  simp [insert, append2, fits, some, Nat.not_lt.mpr small]

theorem insert_of_not_accepts {c : BChunks} {buf : Bytes} (prependMode : Bool)
    (refused : ¬Accepts c buf) : (insert prependMode c buf).2 = c := by
  unfold insert
  split
  · rfl
  · split
    · rfl
    · split
      · rfl
      · rename_i word small some
        refine absurd ⟨some, ?_, ?_⟩ refused
        · simpa [overflowSum] using word
        · exact Nat.not_lt.mp small

/-- Bytes that are not accepted are refused before anything is stored. -/
theorem insert_refused {c : BChunks} {buf : Bytes} (prependMode : Bool) (filled : buf ≠ [])
    (refused : ¬Accepts c buf) : insert prependMode c buf = ((false, 0), c) := by
  unfold insert
  by_cases overflow : overflowSum buf.length c.size = true
  · rw [if_pos overflow]
  rw [if_neg overflow]
  by_cases large : c.limits.maxSize < buf.length + c.size
  · rw [if_pos large]
  · have word : buf.length + c.size < 2 ^ 64 := by simpa [overflowSum] using overflow
    exact absurd ⟨filled, word, Nat.not_lt.mp large⟩ refused

theorem Sized.insert {c : BChunks} (prependMode : Bool) (buf : Bytes) (sized : Sized c) :
    Sized (insert prependMode c buf).2 := by
  by_cases accepts : Accepts c buf
  · rw [insert_of_accepts prependMode accepts]
    have few := sized.chunks
    exact sized.insertLoop prependMode _ buf 0 (by omega)
  · rwa [insert_of_not_accepts prependMode accepts]

theorem Coherent.insertChunk {c : BChunks} {buf : Bytes} (coherent : Coherent c) (filled : buf ≠ [])
    (word : buf.length + c.size < 2 ^ 64) : Coherent (insertChunk false c buf) := by
  have counted := coherent.counted
  have free : nextFreeOffset c.chunksVector = totalSize c.chunksVector := by
    cases found : c.chunksVector.getLast? with
    | none => simp [nextFreeOffset, List.getLast?_eq_none_iff.mp found]
    | some last => simpa [nextFreeOffset, found, size, counted] using coherent.closed last found
  have bytes : (BChunks.insertChunk false c buf).containerBytes = c.containerBytes + buf.length :=
    containerBytes_insertChunk word
  refine .of ?_ ?_ ?_ (by unfold size at word; omega)
  · refine (offsetsFrom_append 0 _ _).mpr ⟨coherent.offsets, ?_, trivial⟩
    simpa using free
  · intro chunk member
    rcases mem_insertChunk member with same | old
    · simpa [BinaryContainerChunk.size, same] using filled
    · exact coherent.nonempty chunk old
  · rw [bytes, counted]
    simp [BChunks.insertChunk, incContainerBytesCount, BinaryContainerChunk.size]

theorem Coherent.insertLoop {c : BChunks} (room : Nat) (buf : Bytes) (appended : Nat)
    (coherent : Coherent c) (chunkSize : c.limits.maxChunkSize ≠ 0)
    (word : buf.length + c.size < 2 ^ 64) : Coherent (insertLoop false room buf appended c).2 := by
  fun_induction BChunks.insertLoop false room buf appended c with
  | case1 => exact coherent
  | case2 => exact coherent
  | case3 room byte rest appended c chunk ih =>
    have taken : chunk.length + ((byte :: rest).drop c.limits.maxChunkSize).length
        = (byte :: rest).length := by
      rw [← List.length_append, List.take_append_drop]
    have bytes : (BChunks.insertChunk false c chunk).size = c.size + chunk.length :=
      containerBytes_insertChunk (by omega)
    refine ih (coherent.insertChunk ?_ (by omega)) chunkSize (by omega)
    simpa [chunk] using chunkSize

/-- What is in the vector stays, up to its offset, whatever is inserted around it. -/
theorem data_mem_insertLoop {c : BChunks} {data : Bytes} (prependMode : Bool) (room : Nat) (buf : Bytes)
    (appended : Nat) (member : data ∈ c.chunksVector.map (·.data)) :
    data ∈ (insertLoop prependMode room buf appended c).2.chunksVector.map (·.data) := by
  fun_induction insertLoop prependMode room buf appended c with
  | case1 => cases prependMode <;> simpa using member
  | case2 => exact member
  | case3 room byte rest appended c chunk ih =>
    refine ih ?_
    cases prependMode with
    | false => exact List.map_append ▸ List.mem_append_left _ member
    | true => exact List.mem_cons_of_mem _ member

/-- Without a chunk size, one turn adds an empty chunk. -/
theorem not_coherent_of_no_chunkSize {c : BChunks} (prependMode : Bool) {room : Nat} {buf : Bytes}
    (appended : Nat) (some : buf ≠ []) (left : 0 < room) (zero : c.limits.maxChunkSize = 0) :
    ¬Coherent (insertLoop prependMode room buf appended c).2 := by
  intro coherent
  obtain ⟨byte, rest, rfl⟩ := List.exists_cons_of_ne_nil some
  obtain ⟨room, rfl⟩ := Nat.exists_eq_succ_of_ne_zero (Nat.ne_of_gt left)
  have empty : [] ∈ (insertLoop prependMode (room + 1) (byte :: rest) appended c).2.chunksVector.map
      (·.data) := by
    rw [BChunks.insertLoop]
    refine data_mem_insertLoop _ _ _ _ ?_
    cases prependMode <;> simp [BChunks.insertChunk, incContainerBytesCount, zero]
  obtain ⟨chunk, member, same⟩ := List.mem_map.mp empty
  exact coherent.nonempty chunk member (by simp [BinaryContainerChunk.size, same])

theorem append_coherent_iff {c : BChunks} (coherent : Coherent c) (buf : Bytes) :
    Coherent (c.append buf).2 ↔
      (Accepts c buf → c.chunksVector.length < c.limits.maxChunks → c.limits.maxChunkSize ≠ 0) := by
  by_cases accepts : Accepts c buf
  · rw [append, insert_of_accepts false accepts]
    constructor
    · intro after _ room zero
      exact not_coherent_of_no_chunkSize false 0 accepts.1 (Nat.sub_pos_of_lt room) zero after
    · intro keeps
      by_cases room : c.chunksVector.length < c.limits.maxChunks
      · exact coherent.insertLoop _ buf 0 (keeps accepts room) accepts.2.1
      · rw [Nat.sub_eq_zero_of_le (Nat.not_lt.mp room)]
        cases buf <;> exact coherent
  · simp only [append, insert_of_not_accepts false accepts, coherent, accepts, false_implies]

/-- Once two chunks stand at zero in front, further pushes keep the second one there. -/
theorem prepend_second {c : BChunks} (room : Nat) (buf : Bytes) (appended : Nat)
    (front : ∃ first second rest, c.chunksVector = first :: second :: rest ∧
      first.offset = 0 ∧ second.offset = 0) :
    ∃ first second rest, (insertLoop true room buf appended c).2.chunksVector = first :: second :: rest ∧
      second.offset = 0 := by
  fun_induction insertLoop true room buf appended c with
  | case1 =>
    obtain ⟨first, second, rest, vector, _, zero⟩ := front
    exact ⟨_, second, rest, (congrArg recalcChunkOffsets vector).trans
      (recalcChunkOffsets_cons first (second :: rest)), zero⟩
  | case2 =>
    obtain ⟨first, second, rest, vector, _, zero⟩ := front
    exact ⟨first, second, rest, vector, zero⟩
  | case3 room byte tail appended c chunk ih =>
    obtain ⟨first, second, rest, vector, zero, _⟩ := front
    exact ih ⟨_, first, second :: rest, congrArg (List.cons _) vector, rfl, zero⟩

/-- The one prepend that leaves a single chunk: into an empty container, in one turn. -/
theorem prepend_single {c : BChunks} {chunk : Bytes} (bare : c.chunksVector = [])
    (coherent : Coherent c) (filled : chunk ≠ []) (word : chunk.length + c.size < 2 ^ 64) :
    Coherent (insertChunk true c chunk) := by
  have same : insertChunk true c chunk = insertChunk false c chunk := by
    simp [insertChunk, bare, nextFreeOffset]
  exact same ▸ coherent.insertChunk filled word

/-- What is left after the first turn decides: any further chunk in front is fatal. -/
theorem prepend_turn {c : BChunks} {chunk : Bytes} (coherent : Coherent c) (filled : chunk ≠ [])
    (word : chunk.length + c.size < 2 ^ 64) (left : Nat) (more : Bytes) (appended : Nat)
    (sized : Sized (insertLoop true left more appended (insertChunk true c chunk)).2) :
    Coherent (insertLoop true left more appended (insertChunk true c chunk)).2 ↔
      c.chunksVector = [] ∧ (more = [] ∨ left = 0) := by
  cases more with
  | nil =>
    have done : (insertLoop true left [] appended (insertChunk true c chunk)).2 =
        { insertChunk true c chunk with
          chunksVector := recalcChunkOffsets (⟨chunk, 0⟩ :: c.chunksVector) } := by
      cases left <;> rfl
    rw [done] at sized ⊢
    cases vector : c.chunksVector with
    | nil =>
      have single := prepend_single vector coherent filled word
      simp only [insertChunk, incContainerBytesCount, vector, if_true] at single
      simpa [recalcChunkOffsets_cons, insertChunk, incContainerBytesCount] using single
    | cons second rest =>
      rw [vector] at sized
      simpa using not_coherent_of_recalc sized rfl
  | cons byte tail =>
    cases left with
    | zero =>
      cases vector : c.chunksVector with
      | nil => simpa [insertLoop] using prepend_single vector coherent filled word
      | cons second rest =>
        have start := coherent.offsets
        rw [vector] at start
        simpa using not_coherent_of_second (congrArg (List.cons _) vector) start.1
    | succ left =>
      obtain ⟨first, second, rest, vector, zero⟩ := prepend_second left
        ((byte :: tail).drop c.limits.maxChunkSize) (appended + _)
        (c := insertChunk true (insertChunk true c chunk) ((byte :: tail).take c.limits.maxChunkSize))
        ⟨_, _, c.chunksVector, rfl, rfl, rfl⟩
      exact iff_of_false (not_coherent_of_second vector zero) (by simp)

theorem prepend_coherent_iff {c : BChunks} (coherent : Coherent c) (sized : Sized c) (buf : Bytes) :
    Coherent (c.prepend buf).2 ↔
      (Accepts c buf → c.chunksVector.length < c.limits.maxChunks →
        c.limits.maxChunkSize ≠ 0 ∧ c.chunksVector = [] ∧
          (buf.length ≤ c.limits.maxChunkSize ∨ c.limits.maxChunks = 1)) := by
  by_cases accepts : Accepts c buf
  case neg => simp only [prepend, insert_of_not_accepts true accepts, coherent, accepts, false_implies]
  by_cases room : c.chunksVector.length < c.limits.maxChunks
  case neg =>
    rw [prepend, insert_of_accepts true accepts, Nat.sub_eq_zero_of_le (Nat.not_lt.mp room)]
    have kept : (insertLoop true 0 buf 0 c).2 = c := by
      obtain ⟨byte, rest, rfl⟩ := List.exists_cons_of_ne_nil accepts.1
      rfl
    simp only [kept, coherent, room, false_implies, implies_true]
  have after : Sized (c.prepend buf).2 := sized.insert true buf
  rw [prepend, insert_of_accepts true accepts] at after ⊢
  simp only [accepts, room, true_implies]
  obtain ⟨filled, word, -⟩ := accepts
  by_cases chunkSize : c.limits.maxChunkSize = 0
  · simp only [chunkSize, ne_eq, not_true_eq_false, false_and, iff_false]
    exact not_coherent_of_no_chunkSize true 0 filled (Nat.sub_pos_of_lt room) chunkSize
  obtain ⟨byte, rest, rfl⟩ := List.exists_cons_of_ne_nil filled
  obtain ⟨left, turns⟩ : ∃ left, c.limits.maxChunks - c.chunksVector.length = left + 1 :=
    Nat.exists_eq_succ_of_ne_zero (by omega)
  rw [turns] at after ⊢
  have short : ((byte :: rest).take c.limits.maxChunkSize).length + c.size < 2 ^ 64 :=
    Nat.lt_of_le_of_lt (Nat.add_le_add_right (List.length_take_le' _ _) _) word
  rw [insertLoop, prepend_turn coherent (by simpa using chunkSize) short _ _ _ after,
    List.drop_eq_nil_iff]
  simp only [chunkSize, ne_eq, not_false_eq_true, true_and]
  refine and_congr_right fun bare => or_congr_right ?_
  rw [bare, List.length_nil] at turns
  omega

end Mantids.Memory.BChunks
