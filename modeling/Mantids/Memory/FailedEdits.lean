import Mantids.Memory.ContentEdits

/-! What an edit that fails leaves behind, with a file system that may refuse (`filemap.cpp`, `b_chunks.cpp`). -/

set_option autoImplicit false

namespace Mantids.Memory

/-- What the file system does for one edit: a new file is opened or not, and a file is given a size, and mapped with
it, or not. -/
structure FileSystem where
  opens : Bool
  grants : (nSize : Nat) → Bool

def FileSystem.granting : FileSystem := ⟨true, fun _ => true⟩

namespace BMMap

/-- `closeFile`: the file goes, the linear memory goes on to refer to where it was. -/
def closeFile (c : BMMap) : BMMap := { c with mapped := [] }

/-- `mmapTruncate` comes first in `mmapAppend` and `mmapPrepend`, and closes the file where it fails. -/
def append2On (fs : FileSystem) (c : BMMap) (buf : Bytes) (prependMode : Bool) : Option (Outcome × BMMap) :=
  if fs.grants (c.mapped.length + buf.length) then c.append2 buf prependMode else some ((false, 0), c.closeFile)

/-- `B_Base::append` and `B_Base::prepend`. -/
def insertOn (fs : FileSystem) (c : BMMap) (prependMode : Bool) (data : Bytes) : Option (Outcome × BMMap) :=
  if overflowSum data.length c.size then some ((false, 0), c)
  else if Limits.default.maxSize < data.length + c.size then some ((false, 0), c)
  else if data = [] then some ((true, 0), c)
  else c.append2On fs data prependMode

end BMMap

namespace BChunks

def copyToSOUsingCleanVectorOn (fs : FileSystem) : List Bytes → (bytesWritten : Nat) → BMMap → Option (Nat × BMMap)
  | [], bytesWritten, bc => some (bytesWritten, bc)
  | chunk :: rest, bytesWritten, bc =>
    match bc.insertOn fs false chunk with
    | none => none
    | some ((false, _), bc) => some (bytesWritten, bc)
    | some ((true, written), bc) =>
      if written ≠ chunk.length then some (bytesWritten + written, bc)
      else copyToSOUsingCleanVectorOn fs rest (bytesWritten + written) bc

def copyToFSOn (fs : FileSystem) (c : BChunks) : Option (Option BMMap) :=
  let mmapbc := BMMap.referenceFile []
  if !fs.opens then some none
  else if c.size = 0 then some (some mmapbc)
  else
    (copyToSOUsingCleanVectorOn fs (copyChunks c.chunksVector c.size) 0 mmapbc).map fun (bytesAppended, mmapbc) =>
      if bytesAppended ≠ c.size then none else some mmapbc

end BChunks

namespace SpillingChunks

def append2On (fs : FileSystem) (c : SpillingChunks) (buf : Bytes) (prependMode : Bool) :
    Option (Outcome × SpillingChunks) :=
  match c.mmapContainer with
  | some mmapContainer => (mmapContainer.insertOn fs prependMode buf).map c.inFile
  | none =>
    if overflowSum buf.length c.size then some ((false, 0), c)
    else if c.maxContainerSizeUntilGoingToFS ≠ 0 ∧ c.maxContainerSizeUntilGoingToFS < buf.length + c.size then
      match c.memory.copyToFSOn fs with
      | none => none
      | some none => some ((false, 0), c)
      | some (some mmapContainer) =>
        let c := { c with memory := { c.memory with chunksVector := [] }, mmapContainer := some mmapContainer }
        (mmapContainer.insertOn fs prependMode buf).map c.inFile
    else some (c.inMemory (c.memory.append2 buf prependMode))

/-- `B_Base::append` and `B_Base::prepend`. -/
def insertOn (fs : FileSystem) (c : SpillingChunks) (prependMode : Bool) (data : Bytes) :
    Option (Outcome × SpillingChunks) :=
  if overflowSum data.length c.size then some ((false, 0), c)
  else if c.memory.limits.maxSize < data.length + c.size then some ((false, 0), c)
  else if data = [] then some ((true, 0), c)
  else c.append2On fs data prependMode

end SpillingChunks

/-! ## A file system that grants everything -/

theorem BMMap.insertOn_granting (c : BMMap) (prependMode : Bool) (data : Bytes) :
    c.insertOn .granting prependMode data = c.insert prependMode data := rfl

theorem BChunks.copyToFSOn_granting (c : BChunks) : c.copyToFSOn .granting = c.copyToFS := by
  have same : ∀ (pieces : List Bytes) (bytesWritten : Nat) (bc : BMMap),
      copyToSOUsingCleanVectorOn .granting pieces bytesWritten bc = copyToSOUsingCleanVector pieces bytesWritten bc := by
    intro pieces
    induction pieces with
    | nil => exact fun _ _ => rfl
    | cons chunk rest ih =>
      intro bytesWritten bc
      rw [copyToSOUsingCleanVectorOn, copyToSOUsingCleanVector, BMMap.insertOn_granting]
      simp only [ih]
      all_goals rfl
  unfold copyToFSOn copyToFS
  simp only [same]
  rfl

/-- It is the one that the edits above are about. -/
theorem SpillingChunks.insertOn_granting (c : SpillingChunks) (prependMode : Bool) (data : Bytes) :
    c.insertOn .granting prependMode data = c.insert prependMode data := by
  unfold insertOn insert append2On append2
  simp only [BMMap.insertOn_granting, BChunks.copyToFSOn_granting]
  all_goals rfl

/-! ## Into the file -/

namespace BMMap

variable {fs : FileSystem} {c : BMMap}

theorem insertOn_of_word (fs : FileSystem) (prependMode : Bool) {data : Bytes} (filled : data ≠ [])
    (word : data.length + c.size < 2 ^ 64) : c.insertOn fs prependMode data = c.append2On fs data prependMode := by
  have sum : overflowSum data.length c.size = false := decide_eq_false (by omega)
  have small : ¬Limits.default.maxSize < data.length + c.size := by
    change ¬2 ^ 64 - 1 < data.length + c.size
    omega
  simp only [insertOn, sum, Bool.false_eq_true, if_false, if_neg small, if_neg filled]

theorem insertOn_nil (fs : FileSystem) (prependMode : Bool) (zero : c.memSize = 0) :
    c.insertOn fs prependMode [] = some ((true, 0), c) := by
  have sum : overflowSum 0 c.memSize = false := by
    apply decide_eq_false
    omega
  have small : ¬Limits.default.maxSize < 0 + c.memSize := by
    change ¬2 ^ 64 - 1 < 0 + c.memSize
    omega
  simp only [insertOn, size, List.length_nil, sum, Bool.false_eq_true, if_false, if_neg small, if_true]

/-- What the mapped file takes it answers for. -/
theorem append2_taken {buf : Bytes} {prependMode : Bool} {outcome : Outcome} {c' : BMMap}
    (result : c.append2 buf prependMode = some (outcome, c')) : outcome.1 = true := by
  unfold append2 at result
  obtain ⟨⟨added, mapped⟩, written, same⟩ := Option.map_eq_some_iff.mp result
  cases same
  cases prependMode with
  | true =>
    simp only [if_true, FileMap.mmapPrepend] at written
    split at written
    · cases written
      rfl
    · obtain ⟨moved, _, rest⟩ := Option.map_eq_some_iff.mp written
      cases rest
      rfl
  | false =>
    simp only [Bool.false_eq_true, if_false, FileMap.mmapAppend] at written
    split at written
    · cases written
      rfl
    · cases written
      rfl

/-- A write into the new file, whose size stays as it was. -/
theorem insertOn_copied {chunk : Bytes} (filled : chunk ≠ []) (zero : c.memSize = 0) (word : chunk.length < 2 ^ 64) :
    c.insertOn fs false chunk =
      some (if fs.grants (c.mapped.length + chunk.length) then ((true, chunk.length), ⟨c.mapped ++ chunk, 0⟩)
        else ((false, 0), c.closeFile)) := by
  have short : chunk.length + c.size < 2 ^ 64 := by
    unfold size
    omega
  rw [insertOn_of_word fs false filled short, append2On]
  split
  · have kept : (FileMap.mmapTruncate c.mapped (c.mapped.length + chunk.length)).take c.mapped.length = c.mapped := by
      have all : c.mapped.take (c.mapped.length + chunk.length) = c.mapped := List.take_of_length_le (by omega)
      rw [FileMap.mmapTruncate, all, List.take_left]
    simp only [append2, Bool.false_eq_true, if_false, FileMap.mmapAppend, if_neg filled, Option.map_some, kept,
      reMapMemoryContainer, size, zero, Nat.zero_mod]
  · rfl

end BMMap

namespace BChunks

variable {fs : FileSystem} {c : BChunks}

/-- The file is given every size that it takes on the way. -/
def granted (fs : FileSystem) : List Bytes → (fileSize : Nat) → Bool
  | [], _ => true
  | chunk :: rest, fileSize =>
    (decide (chunk = []) || fs.grants (fileSize + chunk.length)) && granted fs rest (fileSize + chunk.length)

theorem copyToSOUsingCleanVectorOn_granted {pieces : List Bytes} (small : ∀ piece ∈ pieces, piece.length < 2 ^ 64)
    (mapped : Bytes) (grants : granted fs pieces mapped.length = true) (bytesWritten : Nat) :
    copyToSOUsingCleanVectorOn fs pieces bytesWritten ⟨mapped, 0⟩ =
      some (bytesWritten + pieces.flatten.length, ⟨mapped ++ pieces.flatten, 0⟩) := by
  induction pieces generalizing mapped bytesWritten with
  | nil => rw [copyToSOUsingCleanVectorOn, List.flatten_nil, List.append_nil, List.length_nil, Nat.add_zero]
  | cons chunk rest ih =>
    obtain ⟨first, later⟩ := Bool.and_eq_true_iff.mp grants
    have short := (List.forall_mem_cons.mp small).1
    have others := ih (List.forall_mem_cons.mp small).2
    rw [List.flatten_cons]
    by_cases filled : chunk = []
    · subst filled
      rw [copyToSOUsingCleanVectorOn, BMMap.insertOn_nil fs false rfl]
      exact others mapped later bytesWritten
    · have room : fs.grants (mapped.length + chunk.length) = true := by simpa [filled] using first
      rw [copyToSOUsingCleanVectorOn, BMMap.insertOn_copied filled rfl short, if_pos room]
      rw [← List.length_append] at later
      simp only [ne_eq, not_true_eq_false, if_false, others _ later, List.length_append, List.append_assoc, Nat.add_assoc]

theorem copyToSOUsingCleanVectorOn_refused {pieces : List Bytes} (small : ∀ piece ∈ pieces, piece.length < 2 ^ 64)
    (mapped : Bytes) (refuses : granted fs pieces mapped.length = false) (bytesWritten : Nat) :
    ∃ copied bc, copyToSOUsingCleanVectorOn fs pieces bytesWritten ⟨mapped, 0⟩ = some (copied, bc) ∧
      copied < bytesWritten + pieces.flatten.length := by
  induction pieces generalizing mapped bytesWritten with
  | nil => cases refuses
  | cons chunk rest ih =>
    have short := (List.forall_mem_cons.mp small).1
    have others := ih (List.forall_mem_cons.mp small).2
    rw [List.flatten_cons, List.length_append]
    by_cases filled : chunk = []
    · subst filled
      rw [copyToSOUsingCleanVectorOn, BMMap.insertOn_nil fs false rfl]
      obtain ⟨copied, bc, result, less⟩ := others mapped refuses bytesWritten
      exact ⟨copied, bc, result, by simpa using less⟩
    · have bytes : 0 < chunk.length := List.length_pos_of_ne_nil filled
      rw [copyToSOUsingCleanVectorOn, BMMap.insertOn_copied filled rfl short]
      by_cases room : fs.grants (mapped.length + chunk.length) = true
      · rw [if_pos room]
        rw [granted, room, Bool.or_true, Bool.true_and, ← List.length_append] at refuses
        obtain ⟨copied, bc, result, less⟩ := others _ refuses (bytesWritten + chunk.length)
        refine ⟨copied, bc, ?_, by omega⟩
        simp only [ne_eq, not_true_eq_false, if_false]
        exact result
      · rw [if_neg room]
        exact ⟨bytesWritten, _, rfl, by omega⟩

/-- The file system takes a copy of the content. -/
structure Copies (fs : FileSystem) (c : BChunks) : Prop where
  opens : fs.opens = true
  stored : c.size ≤ totalSize c.chunksVector
  grants : granted fs (copyChunks c.chunksVector c.size) 0 = true

theorem small_copyChunks {chunks : List BinaryContainerChunk} {dataToCopy : Nat} (word : dataToCopy < 2 ^ 64) :
    ∀ piece ∈ copyChunks chunks dataToCopy, piece.length < 2 ^ 64 := by
  intro piece member
  have whole := List.Sublist.length_le (List.sublist_flatten_of_mem member)
  rw [flatten_copyChunks, List.length_take] at whole
  omega

theorem copyToFSOn_copied (word : c.size < 2 ^ 64) (copies : Copies fs c) :
    c.copyToFSOn fs = some (some ⟨(content c.chunksVector).take c.size, 0⟩) := by
  have whole : ((content c.chunksVector).take c.size).length = c.size := by
    rw [List.length_take, length_content, Nat.min_eq_left copies.stored]
  have copied := copyToSOUsingCleanVectorOn_granted (small_copyChunks word) [] copies.grants 0
  unfold copyToFSOn
  rw [copies.opens]
  by_cases bare : c.size = 0
  · rw [bare]
    rfl
  · have start : BMMap.referenceFile [] = ⟨[], 0⟩ := rfl
    simp only [Bool.not_true, Bool.false_eq_true, if_false, if_neg bare, start, copied, Option.map_some, Nat.zero_add,
      flatten_copyChunks, whole, ne_eq, not_true_eq_false, List.nil_append]

theorem copyToFSOn_refused (word : c.size < 2 ^ 64) (refuses : ¬Copies fs c) : c.copyToFSOn fs = some none := by
  unfold copyToFSOn
  by_cases opens : fs.opens = true
  case neg =>
    rw [Bool.not_eq_true] at opens
    rw [opens]
    rfl
  by_cases bare : c.size = 0
  · refine absurd ⟨opens, by omega, ?_⟩ refuses
    rw [bare]
    cases c.chunksVector <;> rfl
  have start : BMMap.referenceFile [] = ⟨[], 0⟩ := rfl
  rw [opens]
  simp only [Bool.not_true, Bool.false_eq_true, if_false, if_neg bare, start]
  by_cases grants : granted fs (copyChunks c.chunksVector c.size) 0 = true
  · have less : totalSize c.chunksVector < c.size := by
      by_contra stored
      exact refuses ⟨opens, Nat.le_of_not_lt stored, grants⟩
    rw [copyToSOUsingCleanVectorOn_granted (small_copyChunks word) [] grants 0, flatten_copyChunks,
      List.length_take, length_content]
    simp only [Option.map_some]
    rw [if_pos (by omega)]
  · rw [Bool.not_eq_true] at grants
    obtain ⟨copied, bc, result, less⟩ := copyToSOUsingCleanVectorOn_refused (small_copyChunks word) [] grants 0
    rw [flatten_copyChunks, List.length_take] at less
    rw [result]
    simp only [Option.map_some]
    rw [if_pos (by omega)]

theorem length_insertLoop_le (prependMode : Bool) (room : Nat) (buf : Bytes) (appended : Nat) :
    c.chunksVector.length ≤ (insertLoop prependMode room buf appended c).2.chunksVector.length := by
  fun_induction insertLoop prependMode room buf appended c with
  | case1 => cases prependMode <;> simp
  | case2 => exact Nat.le_refl _
  | case3 room byte rest appended c chunk ih =>
    rw [length_insertChunk] at ih
    omega

/-- The first chunk is stored before the loop finds that there are too few. -/
theorem length_insertLoop_lt (prependMode : Bool) {room : Nat} {buf : Bytes} (filled : buf ≠ []) (some : 0 < room)
    (appended : Nat) :
    c.chunksVector.length < (insertLoop prependMode room buf appended c).2.chunksVector.length := by
  obtain ⟨byte, rest, rfl⟩ := List.exists_cons_of_ne_nil filled
  obtain ⟨left, rfl⟩ := Nat.exists_eq_succ_of_ne_zero (Nat.ne_of_gt some)
  rw [insertLoop]
  have grown := length_insertLoop_le (c := insertChunk prependMode c ((byte :: rest).take c.limits.maxChunkSize))
    prependMode left ((byte :: rest).drop c.limits.maxChunkSize)
    (appended + ((byte :: rest).take c.limits.maxChunkSize).length)
  rw [length_insertChunk] at grown
  omega

/-- All chunks that the bytes take, or none of them, can be stored. -/
def Rooms (c : BChunks) (buf : Bytes) : Prop :=
  c.limits.maxChunks ≤ c.chunksVector.length ∨
    c.limits.maxChunkSize ≠ 0 ∧ c.chunksVector.length + c.limits.chunkCount buf.length ≤ c.limits.maxChunks

end BChunks

/-! ## What a failed edit leaves -/

namespace SpillingChunks

/-- The bytes that the container keeps. -/
def stored (c : SpillingChunks) : Bytes :=
  match c.mmapContainer with
  | some mmapContainer => mmapContainer.mapped
  | none => content c.memory.chunksVector

structure Unchanged (c c' : SpillingChunks) : Prop where
  stored : c'.stored = c.stored
  size : c'.size = c.size
  offsets : c'.memory.chunksVector.map (·.offset) = c.memory.chunksVector.map (·.offset)

/-- The edit goes to a file. -/
def Spills (c : SpillingChunks) (data : Bytes) : Prop :=
  c.maxContainerSizeUntilGoingToFS ≠ 0 ∧ c.maxContainerSizeUntilGoingToFS < data.length + c.size

/-- Nothing is lost or half stored, should the edit fail. -/
structure Spared (fs : FileSystem) (c : SpillingChunks) (data : Bytes) : Prop where
  inFile : ∀ mmapContainer, c.mmapContainer = some mmapContainer →
    fs.grants (mmapContainer.mapped.length + data.length) = true ∨ mmapContainer.mapped = []
  spilled : c.mmapContainer = none → Spills c data → BChunks.Copies fs c.memory →
    fs.grants (c.size + data.length) = true ∨ c.memory.chunksVector = []
  inMemory : c.mmapContainer = none → ¬Spills c data → BChunks.Rooms c.memory data

/-- The checks of the base are passed. -/
structure Admitted (c : SpillingChunks) (data : Bytes) : Prop where
  filled : data ≠ []
  word : data.length + c.size < 2 ^ 64
  small : data.length + c.size ≤ c.memory.limits.maxSize

variable {fs : FileSystem} {c : SpillingChunks} {prependMode : Bool} {data : Bytes}

theorem Unchanged.refl (c : SpillingChunks) : Unchanged c c := ⟨rfl, rfl, rfl⟩

theorem insertOn_of_admitted (admitted : Admitted c data) :
    c.insertOn fs prependMode data = c.append2On fs data prependMode := by
  have sum : overflowSum data.length c.size = false := decide_eq_false (Nat.not_le.mpr admitted.word)
  unfold insertOn
  rw [sum, if_neg Bool.false_ne_true, if_neg (Nat.not_lt.mpr admitted.small), if_neg admitted.filled]

theorem insertOn_of_not_admitted (refused : ¬Admitted c data) {reported : Nat} {c' : SpillingChunks}
    (result : c.insertOn fs prependMode data = some ((false, reported), c')) : c' = c := by
  unfold insertOn at result
  split at result
  · cases result
    rfl
  rename_i word
  split at result
  · cases result
    rfl
  rename_i small
  split at result
  · cases result
  rename_i filled
  exact absurd ⟨filled, by simpa [overflowSum] using word, Nat.not_lt.mp small⟩ refused

/-- A mapped file that does not get its new size is closed. -/
theorem inFile_unchanged_iff {mmapContainer : BMMap} (mapped : c.mmapContainer = some mmapContainer)
    (admitted : Admitted c data) :
    (∀ reported c', c.insertOn fs prependMode data = some ((false, reported), c') → Unchanged c c') ↔
      (fs.grants (mmapContainer.mapped.length + data.length) = true ∨ mmapContainer.mapped = []) := by
  have word : data.length + mmapContainer.size < 2 ^ 64 := by
    have total := admitted.word
    unfold SpillingChunks.size at total
    rwa [mapped] at total
  have stored : c.stored = mmapContainer.mapped := by
    unfold SpillingChunks.stored
    rw [mapped]
  have size : c.size = mmapContainer.size := by
    unfold SpillingChunks.size
    rw [mapped]
  have edit : c.insertOn fs prependMode data = (mmapContainer.append2On fs data prependMode).map c.inFile := by
    rw [insertOn_of_admitted admitted, append2On, mapped]
    simp only [BMMap.insertOn_of_word fs prependMode admitted.filled word]
  rw [edit]
  by_cases grants : fs.grants (mmapContainer.mapped.length + data.length) = true
  · refine iff_of_true ?_ (.inl grants)
    intro reported c' result
    rw [BMMap.append2On, if_pos grants] at result
    obtain ⟨⟨outcome, grown⟩, written, same⟩ := Option.map_eq_some_iff.mp result
    have taken := BMMap.append2_taken written
    cases same
    cases taken
  · rw [BMMap.append2On, if_neg grants]
    have only : fs.grants (mmapContainer.mapped.length + data.length) = true ∨ mmapContainer.mapped = [] ↔
        mmapContainer.mapped = [] := or_iff_right grants
    rw [only]
    constructor
    · intro all
      have same := (all 0 _ rfl).stored
      rw [stored] at same
      exact same.symm
    · intro bare reported c' result
      cases result
      refine ⟨?_, size.symm, rfl⟩
      rw [stored, bare]
      rfl

/-- Once the content is in a file the chunks are given up, whether the file takes the new bytes or not. -/
theorem spilled_unchanged_iff (memory : c.mmapContainer = none) (admitted : Admitted c data) (spills : Spills c data) :
    (∀ reported c', c.insertOn fs prependMode data = some ((false, reported), c') → Unchanged c c') ↔
      (BChunks.Copies fs c.memory → fs.grants (c.size + data.length) = true ∨ c.memory.chunksVector = []) := by
  have size : c.size = c.memory.size := by
    unfold SpillingChunks.size
    rw [memory]
  have word : data.length + c.memory.size < 2 ^ 64 := size ▸ admitted.word
  have sum : overflowSum data.length c.size = false := decide_eq_false (Nat.not_le.mpr admitted.word)
  have short : c.memory.size < 2 ^ 64 := by omega
  unfold Spills at spills
  rw [insertOn_of_admitted admitted]
  unfold append2On
  rw [memory]
  simp only [sum, Bool.false_eq_true, if_false]
  rw [if_pos spills]
  by_cases copies : BChunks.Copies fs c.memory
  case neg =>
    rw [BChunks.copyToFSOn_refused short copies]
    refine iff_of_true ?_ fun both => absurd both copies
    intro reported c' result
    cases result
    exact .refl c
  have kept : ((content c.memory.chunksVector).take c.memory.size).length = c.size := by
    rw [List.length_take, length_content, Nat.min_eq_left copies.stored, size]
  have small : data.length + (BMMap.mk ((content c.memory.chunksVector).take c.memory.size) 0).size < 2 ^ 64 := by
    show data.length + 0 < 2 ^ 64
    omega
  rw [BChunks.copyToFSOn_copied short copies]
  simp only [BMMap.insertOn_of_word fs prependMode admitted.filled small, copies, true_implies]
  by_cases grants : fs.grants (c.size + data.length) = true
  · refine iff_of_true ?_ (.inl grants)
    intro reported c' result
    rw [BMMap.append2On, kept, if_pos grants] at result
    obtain ⟨⟨outcome, grown⟩, written, same⟩ := Option.map_eq_some_iff.mp result
    have taken := BMMap.append2_taken written
    cases same
    cases taken
  · rw [BMMap.append2On, kept, if_neg grants, or_iff_right grants]
    constructor
    · intro all
      have same := (all 0 _ rfl).offsets
      exact List.map_eq_nil_iff.mp same.symm
    · intro bare reported c' result
      cases result
      have none : c.size = 0 := by
        have least := copies.stored
        rw [bare, totalSize_nil] at least
        omega
      refine ⟨?_, none.symm, ?_⟩
      · unfold SpillingChunks.stored
        rw [memory, bare]
        rfl
      · rw [bare]

/-- In memory an edit that finds some chunks but too few has stored the first of its pieces. -/
theorem inMemory_unchanged_iff (memory : c.mmapContainer = none) (admitted : Admitted c data) (stays : ¬Spills c data) :
    (∀ reported c', c.insertOn fs prependMode data = some ((false, reported), c') → Unchanged c c') ↔
      BChunks.Rooms c.memory data := by
  have size : c.size = c.memory.size := by
    unfold SpillingChunks.size
    rw [memory]
  have sum : overflowSum data.length c.size = false := decide_eq_false (Nat.not_le.mpr admitted.word)
  have edit : c.insertOn fs prependMode data = some (c.inMemory (BChunks.insertLoop prependMode
      (c.memory.limits.maxChunks - c.memory.chunksVector.length) data 0 c.memory)) := by
    unfold Spills at stays
    rw [insertOn_of_admitted admitted]
    unfold append2On BChunks.append2
    rw [memory, ← size]
    simp only [sum, Bool.false_eq_true, if_false]
    rw [if_neg stays]
  rw [edit]
  by_cases full : c.memory.limits.maxChunks ≤ c.memory.chunksVector.length
  · refine iff_of_true ?_ (.inl full)
    intro reported c' result
    obtain ⟨byte, rest, split⟩ := List.exists_cons_of_ne_nil admitted.filled
    rw [Nat.sub_eq_zero_of_le full, split, BChunks.insertLoop] at result
    cases result
    exact .refl c
  have some : 0 < c.memory.limits.maxChunks - c.memory.chunksVector.length := by omega
  have grown := BChunks.length_insertLoop_lt (c := c.memory) prependMode admitted.filled some 0
  generalize looped : BChunks.insertLoop prependMode (c.memory.limits.maxChunks - c.memory.chunksVector.length) data 0
    c.memory = after
  rw [looped] at grown
  -- a failed loop leaves one chunk more, at least
  have halfStored : after.1.1 = false →
      ¬∀ reported c', Option.some (c.inMemory after) = .some ((false, reported), c') → Unchanged c c' := by
    intro failed all
    have answer : c.inMemory after = ((false, after.1.2), (c.inMemory after).2) := by
      rw [← failed]
      rfl
    have same := (all after.1.2 _ (congrArg Option.some answer)).offsets
    have lengths := congrArg List.length same
    rw [List.length_map, List.length_map] at lengths
    exact absurd lengths (Nat.ne_of_gt grown)
  by_cases positive : c.memory.limits.maxChunkSize = 0
  · have failed := BChunks.insertLoop_stuck (c := c.memory) prependMode positive
      (c.memory.limits.maxChunks - c.memory.chunksVector.length) admitted.filled 0
    rw [looped] at failed
    refine iff_of_false (halfStored failed) ?_
    rintro (less | ⟨chunkSize, -⟩)
    · exact full less
    · exact chunkSize positive
  by_cases few : c.memory.limits.maxChunks - c.memory.chunksVector.length < c.memory.limits.chunkCount data.length
  · have failed := BChunks.insertLoop_full positive prependMode 0 few
    rw [looped] at failed
    refine iff_of_false (halfStored failed) ?_
    rintro (less | ⟨-, room⟩)
    · exact full less
    · omega
  · have taken := BChunks.insertLoop_taken positive prependMode 0 (Nat.not_lt.mp few)
    rw [looped] at taken
    refine iff_of_true ?_ (.inr ⟨positive, by omega⟩)
    intro reported c' result
    have answer := congrArg Prod.fst (Option.some.inj result)
    change after.1 = (false, reported) at answer
    rw [taken] at answer
    cases answer

/-- An edit that fails leaves everything as it was, exactly where it is refused before anything is stored or lost. -/
theorem failed_unchanged_iff (fs : FileSystem) (c : SpillingChunks) (prependMode : Bool) (data : Bytes) :
    (∀ reported c', c.insertOn fs prependMode data = some ((false, reported), c') → Unchanged c c') ↔
      (Admitted c data → Spared fs c data) := by
  by_cases admitted : Admitted c data
  case neg =>
    refine iff_of_true ?_ fun impossible => absurd impossible admitted
    intro reported c' result
    rw [insertOn_of_not_admitted admitted result]
    exact .refl c
  simp only [admitted, true_implies]
  cases mapped : c.mmapContainer with
  | some mmapContainer =>
    rw [inFile_unchanged_iff mapped admitted]
    constructor
    · intro kept
      refine ⟨?_, fun none => ?_, fun none => ?_⟩
      · intro other same
        rw [mapped] at same
        cases same
        exact kept
      · rw [mapped] at none
        cases none
      · rw [mapped] at none
        cases none
    · exact fun spared => spared.inFile mmapContainer mapped
  | none =>
    have unmapped : ∀ mmapContainer, c.mmapContainer = some mmapContainer →
        fs.grants (mmapContainer.mapped.length + data.length) = true ∨ mmapContainer.mapped = [] := by
      intro mmapContainer same
      rw [mapped] at same
      cases same
    by_cases spills : Spills c data
    · rw [spilled_unchanged_iff mapped admitted spills]
      exact ⟨fun kept => ⟨unmapped, fun _ _ => kept, fun _ stays => absurd spills stays⟩,
        fun spared => spared.spilled mapped spills⟩
    · rw [inMemory_unchanged_iff mapped admitted spills]
      exact ⟨fun kept => ⟨unmapped, fun _ beyond => absurd beyond spills, fun _ _ => kept⟩,
        fun spared => spared.inMemory mapped spills⟩

/-- Two bytes into a container of one chunk of one byte: the first of them stays. -/
theorem not_failed_unchanged :
    ¬∀ c : SpillingChunks, ∀ prependMode data reported c',
      c.insert prependMode data = some ((false, reported), c') → Unchanged c c' := by
  intro all
  have kept := all (empty ⟨100, 1, 1, by decide, by decide, by decide⟩ 0) false [1, 2] 1 _ rfl
  exact absurd kept.stored (by decide)

end SpillingChunks

end Mantids.Memory
