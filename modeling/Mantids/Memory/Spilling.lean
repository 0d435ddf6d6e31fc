import Mantids.Memory.CopyOut
import Mantids.Memory.MappedFile

/-! The chunked container that goes on in a mapped file when it grows over its limit (`b_chunks.cpp`), and when
edits of either keep to a string of bytes. -/

set_option autoImplicit false

namespace Mantids.Memory

open Library

namespace BChunks

def change (c : BChunks) : Change → Outcome × BChunks
  | .append buf => c.append buf
  | .prepend buf => c.prepend buf
  | .displace bytes => c.displace bytes
  | .truncate bytes => c.truncate bytes

/-- `copyOut` of all bytes. -/
def readAll (c : BChunks) : Option Bytes := c.copyOut c.size 0

/-- The chunks into a mapped file: it takes all of a write, or the copy ends there. -/
def copyToSOUsingCleanVector : List Bytes → (bytesWritten : Nat) → BMMap → Option (Nat × BMMap)
  | [], bytesWritten, bc => some (bytesWritten, bc)
  | chunk :: rest, bytesWritten, bc =>
    match bc.insert false chunk with
    | none => none
    | some ((false, _), bc) => some (bytesWritten, bc)
    | some ((true, written), bc) =>
      if written ≠ chunk.length then some (bytesWritten + written, bc)
      else copyToSOUsingCleanVector rest (bytesWritten + written) bc

/-- `copyToFS`, into a new file: no container where not all bytes are in it. -/
def copyToFS (c : BChunks) : Option (Option BMMap) :=
  let mmapbc := BMMap.referenceFile []
  if c.size = 0 then some (some mmapbc)
  else
    (copyToSOUsingCleanVector (copyChunks c.chunksVector c.size) 0 mmapbc).map fun (bytesAppended, mmapbc) =>
      if bytesAppended ≠ c.size then none else some mmapbc

end BChunks

structure SpillingChunks where
  memory : BChunks
  mmapContainer : Option BMMap
  maxContainerSizeUntilGoingToFS : Nat

namespace SpillingChunks

def empty (limits : Limits) (maxContainerSizeUntilGoingToFS : Nat) : SpillingChunks :=
  ⟨BChunks.empty limits, none, maxContainerSizeUntilGoingToFS⟩

def size (c : SpillingChunks) : Nat :=
  match c.mmapContainer with
  | some mmapContainer => mmapContainer.size
  | none => c.memory.size

def inMemory (c : SpillingChunks) (result : Outcome × BChunks) : Outcome × SpillingChunks :=
  (result.1, { c with memory := result.2 })

def inFile (c : SpillingChunks) (result : Outcome × BMMap) : Outcome × SpillingChunks :=
  (result.1, { c with mmapContainer := some result.2 })

def append2 (c : SpillingChunks) (buf : Bytes) (prependMode : Bool) : Option (Outcome × SpillingChunks) :=
  match c.mmapContainer with
  | some mmapContainer => (mmapContainer.insert prependMode buf).map c.inFile
  | none =>
    if overflowSum buf.length c.size then some ((false, 0), c)
    else if c.maxContainerSizeUntilGoingToFS ≠ 0 ∧ c.maxContainerSizeUntilGoingToFS < buf.length + c.size then
      match c.memory.copyToFS with
      | none => none
      | some none => some ((false, 0), c)
      | some (some mmapContainer) =>
        let c := { c with memory := { c.memory with chunksVector := [] }, mmapContainer := some mmapContainer }
        (mmapContainer.insert prependMode buf).map c.inFile
    else some (c.inMemory (c.memory.append2 buf prependMode))

/-- `B_Base::append` and `B_Base::prepend`. -/
def insert (c : SpillingChunks) (prependMode : Bool) (data : Bytes) : Option (Outcome × SpillingChunks) :=
  if overflowSum data.length c.size then some ((false, 0), c)
  else if c.memory.limits.maxSize < data.length + c.size then some ((false, 0), c)
  else if data = [] then some ((true, 0), c)
  else c.append2 data prependMode

def displace (c : SpillingChunks) (bytes : Nat) : Option (Outcome × SpillingChunks) :=
  let bytesToDisplace := if c.size < bytes then c.size else bytes
  match c.mmapContainer with
  | some mmapContainer => (mmapContainer.displace bytesToDisplace).map c.inFile
  | none => some (c.inMemory (c.memory.displace2 bytesToDisplace))

def truncate (c : SpillingChunks) (bytes : Nat) : Option (Outcome × SpillingChunks) :=
  if c.size ≤ bytes then some ((false, c.size), c)
  else
    match c.mmapContainer with
    | some mmapContainer => (mmapContainer.truncate bytes).map c.inFile
    | none => some (c.inMemory (c.memory.truncate2 bytes))

def change (c : SpillingChunks) : Change → Option (Outcome × SpillingChunks)
  | .append buf => c.insert false buf
  | .prepend buf => c.insert true buf
  | .displace bytes => c.displace bytes
  | .truncate bytes => c.truncate bytes

def readAll (c : SpillingChunks) : Option Bytes :=
  match c.mmapContainer with
  | some mmapContainer => mmapContainer.copyOut
  | none => c.memory.readAll

end SpillingChunks

/-! ## The mapped file -/

namespace BMMap

theorem memSize_change {c c' : BMMap} (change : Change) {outcome : Outcome} (word : c.memSize < 2 ^ 32)
    (result : c.change change = some (outcome, c')) : c'.memSize = c.memSize := by
  have kept : ∀ mapped, (c.reMapMemoryContainer mapped).memSize = c.memSize := fun _ => Nat.mod_eq_of_lt word
  have inserted : ∀ prependMode buf, c.insert prependMode buf = some (outcome, c') → c'.memSize = c.memSize := by
    intro prependMode buf result
    unfold insert at result
    split at result
    · cases result
      rfl
    split at result
    · cases result
      rfl
    split at result
    · cases result
      rfl
    obtain ⟨added, _, same⟩ := Option.map_eq_some_iff.mp result
    cases same
    exact kept _
  cases change with
  | append buf => exact inserted false buf result
  | prepend buf => exact inserted true buf result
  | displace bytes =>
    have displaced : ∀ bytes, c.displace2 bytes = some (outcome, c') → c'.memSize = c.memSize := by
      intro bytes result
      unfold displace2 at result
      split at result
      · cases result
        rfl
      obtain ⟨mapped, _, same⟩ := Option.map_eq_some_iff.mp result
      cases same
      exact kept mapped
    exact displaced _ result
  | truncate bytes =>
    simp only [BMMap.change, truncate, truncate2] at result
    split at result
    · cases result
      rfl
    · cases result
      exact kept _

theorem length_copyOut {c : BMMap} {bytes : Bytes} (read : c.copyOut = some bytes) : bytes.length = c.memSize := by
  unfold copyOut size at read
  split at read
  · cases read
    rw [List.length_take]
    omega
  · cases read

/-- What the container shows, and the file, while nothing has changed it. -/
structure Shows (c : BMMap) (file : Bytes) : Prop where
  mapped : c.mapped = file
  memSize : c.memSize = file.length
  word : file.length < 2 ^ 32

theorem Shows.copyOut {c : BMMap} {file : Bytes} (shows : Shows c file) : c.copyOut = some file := by
  unfold BMMap.copyOut size
  rw [shows.mapped, shows.memSize, if_pos (Nat.le_refl _), List.take_length]

end BMMap

/-- An edit that leaves the length leaves the bytes. -/
theorem idle_of_length {s : Bytes} {change : Change} (same : (ideal s change).2.length = s.length) : Idle s change := by
  cases change with
  | append buf =>
    have none : buf = [] := by simpa [ideal] using same
    simp [Idle, ideal, none]
  | prepend buf =>
    have none : buf = [] := by simpa [ideal] using same
    simp [Idle, ideal, none]
  | displace bytes =>
    simp only [ideal, List.length_drop] at same
    rcases Nat.eq_zero_or_pos bytes with rfl | some
    · rfl
    · have empty : s = [] := List.length_eq_zero_iff.mp (by omega)
      simp [Idle, ideal, empty]
  | truncate bytes =>
    simp only [ideal] at same
    split at same
    case isTrue all => simp [Idle, ideal, all]
    case isFalse less =>
      rw [List.length_take] at same
      omega

namespace BMMap

theorem insert_nil {c : BMMap} {file : Bytes} (shows : Shows c file) (prependMode : Bool) :
    c.insert prependMode [] = some ((true, 0), c) := by
  have word := shows.word
  have sum : overflowSum 0 c.memSize = false := by
    apply decide_eq_false
    rw [shows.memSize]
    omega
  have small : ¬Limits.default.maxSize < 0 + c.memSize := by
    rw [shows.memSize]
    change ¬2 ^ 64 - 1 < 0 + file.length
    omega
  unfold insert size
  simp only [List.length_nil, sum, Bool.false_eq_true, if_false, if_neg small, if_true]

/-- An edit that changes nothing answers as it should, and what is shown stays. -/
theorem change_idle {c : BMMap} {file : Bytes} (shows : Shows c file) {change : Change} (idle : Idle file change) :
    ∃ c', c.change change = some ((ideal file change).1, c') ∧ Shows c' (ideal file change).2 := by
  rw [idle]
  cases change with
  | append buf =>
    have none : buf = [] := by simpa [Idle, ideal] using idle
    subst none
    exact ⟨c, insert_nil shows false, shows⟩
  | prepend buf =>
    have none : buf = [] := by simpa [Idle, ideal] using idle
    subst none
    exact ⟨c, insert_nil shows true, shows⟩
  | displace bytes =>
    have nothing : min bytes file.length = 0 := by
      have same := congrArg List.length idle
      simp only [ideal, List.length_drop] at same
      omega
    have clamped : (if c.size < bytes then c.size else bytes) = 0 := by
      have known := shows.memSize
      unfold size
      split <;> omega
    refine ⟨c.reMapMemoryContainer c.mapped, ?_, shows.mapped, ?_, shows.word⟩
    · simp only [BMMap.change, displace, clamped, displace2, Nat.not_lt_zero, if_false, FileMap.mmapDisplace,
        Mem.memmove64, Nat.lt_irrefl, Option.map_some, Nat.sub_zero, FileMap.mmapTruncate, List.take_length,
        Nat.sub_self, List.replicate_zero, List.append_nil, ideal, nothing]
    · change c.memSize % 2 ^ 32 = file.length
      rw [shows.memSize, Nat.mod_eq_of_lt shows.word]
  | truncate bytes =>
    have all : file.length ≤ bytes := by
      have same := congrArg List.length idle
      simp only [ideal] at same
      split at same
      case isTrue all => exact all
      case isFalse less =>
        rw [List.length_take] at same
        omega
    refine ⟨c, ?_, shows⟩
    have known : c.size = file.length := shows.memSize
    simp only [BMMap.change, truncate, known, all, if_true, ideal]

/-- One that changes something is not seen, whatever it answers: the size is that of before. -/
theorem change_unseen {c c' : BMMap} {file : Bytes} (shows : Shows c file) {change : Change} {outcome : Outcome}
    (busy : ¬Idle file change) (result : c.change change = some (outcome, c')) :
    c'.copyOut ≠ some (ideal file change).2 := by
  intro read
  have word : c.memSize < 2 ^ 32 := shows.memSize ▸ shows.word
  have size := length_copyOut read
  rw [memSize_change change word result, shows.memSize] at size
  exact busy (idle_of_length size)

/-- A mapped file keeps to the string of bytes as long as nothing changes it. -/
theorem follows_iff (file : Bytes) (run : List Change) :
    Follows change copyOut ideal id (referenceFile file) file run ↔
      file.length < 2 ^ 32 ∧ Along (fun s change => (ideal s change).2) Idle file run := by
  by_cases word : file.length < 2 ^ 32
  · have start : Shows (referenceFile file) file := ⟨rfl, Nat.mod_eq_of_lt word, word⟩
    rw [and_iff_right word]
    apply follows_iff_along Shows Idle
    case reads => exact fun _ _ shows => shows.copyOut
    case stays => exact fun _ _ _ shows idle => change_idle shows idle
    case leaves =>
      intro c file change shows busy c' result
      exact change_unseen shows busy result
    case start => exact start
  · refine iff_of_false ?_ fun both => word both.1
    intro follows
    -- the size that linear memory was given has lost its upper bits
    have size : file.length = file.length % 2 ^ 32 := length_copyOut follows.reads
    have small := Nat.mod_lt file.length (show 0 < 2 ^ 32 by decide)
    omega

end BMMap

/-! ## The chunks that go to a file -/

/-- The edit takes the container over its limit. -/
def Exceeds (maxContainerSizeUntilGoingToFS : Nat) (c : BChunks) : Change → Prop
  | .append buf | .prepend buf =>
    BChunks.Accepts c buf ∧ maxContainerSizeUntilGoingToFS ≠ 0 ∧ maxContainerSizeUntilGoingToFS < buf.length + c.size
  | .displace _ | .truncate _ => False

namespace BChunks

theorem memSize_copyToSOUsingCleanVector {pieces : List Bytes} {bytesWritten written : Nat} {bc bc' : BMMap}
    (zero : bc.memSize = 0) (result : copyToSOUsingCleanVector pieces bytesWritten bc = some (written, bc')) :
    bc'.memSize = 0 := by
  induction pieces generalizing bytesWritten bc with
  | nil =>
    cases result
    exact zero
  | cons chunk rest ih =>
    have next : ∀ {outcome bc'}, bc.insert false chunk = some (outcome, bc') → bc'.memSize = 0 := by
      intro outcome bc' inserted
      rw [BMMap.memSize_change (.append chunk) (by omega) inserted, zero]
    simp only [copyToSOUsingCleanVector] at result
    split at result
    · cases result
    · rename_i inserted
      cases result
      exact next inserted
    · rename_i inserted
      split at result
      · cases result
        exact next inserted
      · exact ih (next inserted) result

/-- The size of the new file is what it was when it was opened. -/
theorem memSize_copyToFS {c : BChunks} {mmapContainer : BMMap} (result : c.copyToFS = some (some mmapContainer)) :
    mmapContainer.memSize = 0 := by
  have zero : (BMMap.referenceFile []).memSize = 0 := rfl
  unfold copyToFS at result
  split at result
  · cases result
    exact zero
  · obtain ⟨⟨bytesAppended, mmapbc⟩, copied, same⟩ := Option.map_eq_some_iff.mp result
    simp only at same
    split at same
    · cases same
    · cases same
      exact memSize_copyToSOUsingCleanVector zero copied

end BChunks

namespace SpillingChunks

variable {c : SpillingChunks} {change : Change}

/-- Below the limit the edits are those of the memory mode. -/
theorem change_inMemory (memory : c.mmapContainer = none)
    (below : ¬Exceeds c.maxContainerSizeUntilGoingToFS c.memory change) :
    c.change change = some (c.inMemory (c.memory.change change)) := by
  have size : c.size = c.memory.size := by
    unfold SpillingChunks.size
    rw [memory]
  have inserted : ∀ prependMode buf,
      ¬(BChunks.Accepts c.memory buf ∧ c.maxContainerSizeUntilGoingToFS ≠ 0 ∧
        c.maxContainerSizeUntilGoingToFS < buf.length + c.memory.size) →
      c.insert prependMode buf = some (c.inMemory (c.memory.insert prependMode buf)) := by
    intro prependMode buf below
    unfold SpillingChunks.insert BChunks.insert
    rw [size]
    by_cases overflow : overflowSum buf.length c.memory.size = true
    · rw [if_pos overflow, if_pos overflow]
      rfl
    rw [if_neg overflow, if_neg overflow]
    by_cases large : c.memory.limits.maxSize < buf.length + c.memory.size
    · rw [if_pos large, if_pos large]
      rfl
    rw [if_neg large, if_neg large]
    by_cases none : buf = []
    · rw [if_pos none, if_pos none]
      rfl
    rw [if_neg none, if_neg none]
    have word : buf.length + c.memory.size < 2 ^ 64 := by simpa [overflowSum] using overflow
    have room := fun beyond => below ⟨⟨none, word, Nat.not_lt.mp large⟩, beyond⟩
    unfold SpillingChunks.append2
    rw [memory, size]
    simp only [if_neg overflow, if_neg room]
  cases change with
  | append buf => exact inserted false buf below
  | prepend buf => exact inserted true buf below
  | displace bytes =>
    change c.displace bytes = _
    unfold SpillingChunks.displace
    rw [memory, size]
    rfl
  | truncate bytes =>
    change c.truncate bytes = some (c.inMemory (c.memory.truncate bytes))
    unfold SpillingChunks.truncate BChunks.truncate
    rw [memory, size]
    split
    · rfl
    · rfl

/-- The edit that takes the container to the file fails, or leaves it with a size of zero. -/
theorem change_spilled (memory : c.mmapContainer = none)
    (beyond : Exceeds c.maxContainerSizeUntilGoingToFS c.memory change) {outcome : Outcome} {c' : SpillingChunks}
    (result : c.change change = some (outcome, c')) : outcome = (false, 0) ∨ c'.readAll = some [] := by
  have size : c.size = c.memory.size := by
    unfold SpillingChunks.size
    rw [memory]
  have inserted : ∀ prependMode buf, BChunks.Accepts c.memory buf → c.maxContainerSizeUntilGoingToFS ≠ 0 ∧
      c.maxContainerSizeUntilGoingToFS < buf.length + c.memory.size →
      c.insert prependMode buf = some (outcome, c') → outcome = (false, 0) ∨ c'.readAll = some [] := by
    rintro prependMode buf ⟨filled, word, small⟩ beyond result
    have sum : overflowSum buf.length c.memory.size = false := decide_eq_false (Nat.not_le.mpr word)
    simp only [SpillingChunks.insert, size, sum, Bool.false_eq_true, if_false, if_neg (Nat.not_lt.mpr small),
      if_neg filled, append2, memory] at result
    rw [if_pos beyond] at result
    split at result
    · cases result
    · cases result
      exact .inl rfl
    · rename_i mmapContainer copied
      obtain ⟨⟨added, grown⟩, written, same⟩ := Option.map_eq_some_iff.mp result
      cases same
      right
      have zero := BChunks.memSize_copyToFS copied
      have still : grown.memSize = 0 := by
        cases prependMode with
        | false => exact (BMMap.memSize_change (.append buf) (by omega) written).trans zero
        | true => exact (BMMap.memSize_change (.prepend buf) (by omega) written).trans zero
      change grown.copyOut = some []
      unfold BMMap.copyOut BMMap.size
      rw [still, if_pos (Nat.zero_le _), List.take_zero]
  cases change with
  | append buf => exact inserted false buf beyond.1 beyond.2 result
  | prepend buf => exact inserted true buf beyond.1 beyond.2 result
  | displace bytes => exact beyond.elim
  | truncate bytes => exact beyond.elim

/-- A run that spills leaves the bytes at the edit that goes to the file; another is one of the memory mode. -/
theorem follows_iff (memory : BChunks) (maxContainerSizeUntilGoingToFS : Nat) (s : Bytes) (run : List Change) :
    Follows SpillingChunks.change readAll ideal id ⟨memory, none, maxContainerSizeUntilGoingToFS⟩ s run ↔
      Along (fun c change => (BChunks.change c change).2)
          (fun c change => ¬Exceeds maxContainerSizeUntilGoingToFS c change) memory run ∧
        Follows (fun c change => some (BChunks.change c change)) BChunks.readAll ideal id memory s run := by
  induction run generalizing memory s with
  | nil => exact (and_iff_right trivial).symm
  | cons edit rest ih =>
    by_cases beyond : Exceeds maxContainerSizeUntilGoingToFS memory edit
    · refine iff_of_false ?_ fun both => both.1.1 beyond
      apply not_follows_cons
      intro c' result read
      rcases change_spilled rfl beyond result with failed | shown
      · cases edit <;> first | exact beyond.elim | cases failed
      · rw [shown] at read
        cases edit with
        | append buf =>
          have none : buf = [] := by
            have parts : [] = s ++ buf := Option.some.inj read
            exact (List.append_eq_nil_iff.mp parts.symm).2
          exact beyond.1.1 none
        | prepend buf =>
          have none : buf = [] := by
            have parts : [] = buf ++ s := Option.some.inj read
            exact (List.append_eq_nil_iff.mp parts.symm).1
          exact beyond.1.1 none
        | displace bytes => exact beyond
        | truncate bytes => exact beyond
    · have step := change_inMemory (c := ⟨memory, none, maxContainerSizeUntilGoingToFS⟩) rfl beyond
      have later := ih (memory.change edit).2 (ideal s edit).2
      constructor
      · rintro ⟨reads, c', result, follows⟩
        rw [step] at result
        obtain ⟨answer, rfl⟩ := Prod.mk.inj (Option.some.inj result)
        obtain ⟨below, same⟩ := later.mp follows
        exact ⟨⟨beyond, below⟩, reads, _, congrArg some (Prod.ext answer rfl), same⟩
      · rintro ⟨⟨_, below⟩, reads, c', result, same⟩
        obtain ⟨answer, rfl⟩ := Prod.mk.inj (Option.some.inj result)
        refine ⟨reads, _, step.trans (congrArg some (Prod.ext answer rfl)), later.mpr ⟨below, same⟩⟩

/-- It answers and shows what the memory mode does. -/
theorem follows_memory (memory : BChunks) (maxContainerSizeUntilGoingToFS : Nat) (run : List Change)
    (below : Along (fun c change => (BChunks.change c change).2)
      (fun c change => ¬Exceeds maxContainerSizeUntilGoingToFS c change) memory run) :
    Follows SpillingChunks.change (fun c => some c.readAll) BChunks.change BChunks.readAll
      ⟨memory, none, maxContainerSizeUntilGoingToFS⟩ memory run := by
  induction run generalizing memory with
  | nil => rfl
  | cons edit rest ih =>
    have step := change_inMemory (c := ⟨memory, none, maxContainerSizeUntilGoingToFS⟩) rfl below.1
    exact ⟨rfl, _, step, ih (memory.change edit).2 below.2⟩

end SpillingChunks

/-! ## The memory mode -/

namespace BChunks

/-- The edit is taken in full and leaves no chunk behind a rewritten first one. -/
def Takes (c : BChunks) : Change → Prop
  | .append buf =>
    buf.length + c.size ≤ c.limits.maxSize ∧ c.limits.maxChunkSize ≠ 0 ∧
      c.chunksVector.length + c.limits.chunkCount buf.length ≤ c.limits.maxChunks
  | .prepend buf =>
    buf.length + c.size ≤ c.limits.maxSize ∧
      (buf = [] ∨ c.chunksVector = [] ∧ buf.length ≤ c.limits.maxChunkSize ∧ c.limits.maxChunks ≠ 0)
  | .displace bytes => ∀ last ∈ c.chunksVector.getLast?, c.size - bytes ≤ last.size
  | .truncate _ => True

/-- The chunks hold the bytes in order, with right offsets. -/
structure Stores (c : BChunks) (s : Bytes) : Prop where
  coherent : Coherent c
  sized : Sized c
  content : content c.chunksVector = s

variable {c : BChunks} {s : Bytes}

theorem Stores.size (stores : Stores c s) : c.size = s.length := by
  rw [← stores.content, length_content]
  exact stores.coherent.counted

theorem Stores.readAll (stores : Stores c s) : c.readAll = some s := by
  have word : c.size < 2 ^ 64 := stores.coherent.word
  unfold BChunks.readAll
  by_cases some : c.size = 0
  · have sum : overflowSum 0 c.size = false := decide_eq_false (by omega)
    have empty : s = [] := List.length_eq_zero_iff.mp (stores.size ▸ some)
    unfold copyOut
    rw [sum, if_neg Bool.false_ne_true, if_pos some, empty]
  · rw [copyOut_eq stores.coherent some (by omega), List.drop_zero, stores.content, stores.size, List.take_length]

theorem prepend_single_eq {buf : Bytes} (bare : c.chunksVector = []) (filled : buf ≠ [])
    (fits : buf.length ≤ c.limits.maxChunkSize) (some : c.limits.maxChunks ≠ 0) (accepts : Accepts c buf) :
    ∃ c', c.prepend buf = ((true, buf.length), c') ∧ content c'.chunksVector = buf := by
  obtain ⟨left, turns⟩ := Nat.exists_eq_succ_of_ne_zero some
  obtain ⟨byte, rest, rfl⟩ := List.exists_cons_of_ne_nil filled
  rw [prepend, insert_of_accepts true accepts, bare, List.length_nil, Nat.sub_zero, turns, insertLoop,
    List.take_of_length_le fits, List.drop_eq_nil_of_le fits, Nat.zero_add]
  refine ⟨_, by cases left <;> rfl, ?_⟩
  simp [insertChunk, incContainerBytesCount, bare]

theorem insert_nil {prependMode : Bool} (coherent : Coherent c) (fits : c.size ≤ c.limits.maxSize) :
    insert prependMode c [] = ((true, 0), c) := by
  have nothing := append_nil coherent.isCounted fits
  unfold append insert at nothing
  unfold insert
  split at nothing
  · cases nothing
  split at nothing
  · cases nothing
  · simp only [*, if_false, if_true, Bool.false_eq_true]

theorem change_stores {change : Change} (stores : Stores c s) (takes : Takes c change) :
    ∃ c', c.change change = ((ideal s change).1, c') ∧ Stores c' (ideal s change).2 := by
  have coherent := stores.coherent
  have sized := stores.sized
  have size := stores.size
  cases change with
  | append buf =>
    obtain ⟨fits, positive, room⟩ := takes
    by_cases none : buf = []
    · subst none
      rw [List.length_nil, Nat.zero_add] at fits
      refine ⟨c, insert_nil coherent fits, ?_⟩
      rwa [ideal, List.append_nil]
    obtain ⟨c', result, after⟩ := append_appended coherent.isCounted positive none (Nat.add_comm _ _ ▸ fits) room
    refine ⟨c', result, ?_, ?_, ?_⟩
    · have kept := (append_coherent_iff coherent buf).mpr fun _ _ => positive
      rwa [result] at kept
    · have kept := sized.insert false buf
      rwa [show BChunks.insert false c buf = _ from result] at kept
    · rw [after.content, stores.content]
      rfl
  | prepend buf =>
    obtain ⟨fits, free⟩ := takes
    by_cases none : buf = []
    · subst none
      rw [List.length_nil, Nat.zero_add] at fits
      exact ⟨c, insert_nil coherent fits, stores⟩
    obtain ⟨bare, short, some⟩ := free.resolve_left none
    have accepts : Accepts c buf := ⟨none, Nat.lt_of_le_of_lt fits c.limits.size_word, fits⟩
    obtain ⟨c', result, after⟩ := prepend_single_eq bare none short some accepts
    have filled : buf.length ≠ 0 := fun zero => none (List.length_eq_zero_iff.mp zero)
    refine ⟨c', result, ?_, ?_, ?_⟩
    · have kept := (prepend_coherent_iff coherent sized buf).mpr fun _ _ => ⟨by omega, bare, .inl short⟩
      rwa [result] at kept
    · have kept := sized.insert true buf
      rwa [show BChunks.insert true c buf = _ from result] at kept
    · have empty : s = [] := by
        rw [← stores.content, bare, content_nil]
      rw [after, empty]
      exact (List.append_nil buf).symm
  | displace bytes =>
    have answer := displace_eq coherent.isCounted bytes
    have kept := (displace_coherent_iff coherent sized bytes).mpr takes
    have small := sized.displace coherent bytes
    rw [answer] at kept small
    refine ⟨_, answer.trans ?_, kept, small, ?_⟩
    · rw [size]
      rfl
    · simp only [content_recalcChunkOffsets, content_cut, stores.content, size, ideal]
      rcases Nat.le_total bytes s.length with less | more
      · rw [Nat.min_eq_left less]
      · rw [Nat.min_eq_right more, List.drop_length, List.drop_eq_nil_of_le more]
  | truncate bytes =>
    have kept := truncate_coherent coherent bytes
    have small := sized.truncate bytes
    simp only [ideal]
    by_cases all : s.length ≤ bytes
    · have same : c.truncate bytes = ((false, s.length), c) := by
        unfold truncate
        rw [size, if_pos all]
      rw [if_pos all]
      exact ⟨c, same, stores⟩
    · obtain ⟨c', result, after⟩ := content_truncate coherent (size.symm ▸ Nat.lt_of_not_le all)
      rw [stores.content] at after
      rw [result] at kept small
      rw [if_neg all]
      exact ⟨c', result, kept, small, after⟩

/-- Where every edit is taken so, the memory mode keeps to the string of bytes. -/
theorem follows_of_takes {run : List Change} (stores : Stores c s)
    (takes : Along (fun c change => (BChunks.change c change).2) Takes c run) :
    Follows (fun c change => some (BChunks.change c change)) readAll ideal id c s run := by
  induction run generalizing c s with
  | nil => exact stores.readAll
  | cons edit rest ih =>
    obtain ⟨c', result, next⟩ := change_stores stores takes.1
    have later := takes.2
    simp only [result] at later
    exact ⟨stores.readAll, c', congrArg some result, ih next later⟩

end BChunks

/-! ## Both -/

/-- An edited file, and chunks that may go to one, against the string of bytes and against the memory mode. -/
theorem refines_iff (file : Bytes) (limits : Limits) (maxContainerSizeUntilGoingToFS : Nat) (run : List Change) :
    (Follows BMMap.change BMMap.copyOut ideal id (BMMap.referenceFile file) file run ↔
        file.length < 2 ^ 32 ∧ Along (fun s change => (ideal s change).2) Idle file run) ∧
      (Follows SpillingChunks.change SpillingChunks.readAll ideal id
            (SpillingChunks.empty limits maxContainerSizeUntilGoingToFS) [] run ∧
          Follows SpillingChunks.change (fun c => some c.readAll) BChunks.change BChunks.readAll
            (SpillingChunks.empty limits maxContainerSizeUntilGoingToFS) (BChunks.empty limits) run ↔
        Along (fun c change => (BChunks.change c change).2)
            (fun c change => ¬Exceeds maxContainerSizeUntilGoingToFS c change) (BChunks.empty limits) run ∧
          Follows (fun c change => some (BChunks.change c change)) BChunks.readAll ideal id (BChunks.empty limits) []
            run) := by
  have bytes := SpillingChunks.follows_iff (BChunks.empty limits) maxContainerSizeUntilGoingToFS [] run
  constructor
  · exact BMMap.follows_iff file run
  · constructor
    · exact fun both => bytes.mp both.1
    · intro both
      exact ⟨bytes.mpr both, SpillingChunks.follows_memory _ _ _ both.1⟩

/-- One byte into a new file is not read back, nor is the byte that takes chunks over a limit of one. -/
theorem not_refines :
    ¬(∀ file run, Follows BMMap.change BMMap.copyOut ideal id (BMMap.referenceFile file) file run) ∧
      ¬∀ limits max run, Follows SpillingChunks.change SpillingChunks.readAll ideal id
        (SpillingChunks.empty limits max) [] run := by
  constructor
  · intro all
    obtain ⟨-, c', result, read⟩ := all [] [.append [97]]
    have grown : c' = ⟨[97], 0⟩ := (Prod.mk.inj (Option.some.inj result)).2.symm
    rw [grown] at read
    exact absurd (show BMMap.copyOut ⟨[97], 0⟩ = some [97] from read) (by decide)
  · intro all
    have below := (SpillingChunks.follows_iff _ 1 [] _).mp (all .default 1 [.append [97], .append [98]])
    exact below.1.2.1 ⟨⟨by decide, by decide, by decide⟩, by decide, by decide⟩

end Mantids.Memory
