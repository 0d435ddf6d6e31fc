import Mantids.Memory.Containers
import Mantids.Memory.StreamableObject

/-! Reading bytes of a chunked container by offset and length (`b_base.cpp` over `b_chunks.cpp`): each of its
walks over the chunks reads the same slice of the content. -/

set_option autoImplicit false

namespace Mantids.Memory

/-- What the base asks for: the largest number is all behind the offset, if that is in the container. -/
def wholeContainer : Nat := 2 ^ 64 - 1

def bytesToRead (currentSize bytes offset : Nat) : Option Nat :=
  if bytes = wholeContainer then if currentSize < offset then none else some (currentSize - offset) else some bytes

namespace BChunks

/-- `B_Base::copyOut`, of any number of bytes. -/
def copyOutBytes (c : BChunks) (bytes offset : Nat) : Option Bytes :=
  (bytesToRead c.size bytes offset).bind fun bytes => c.copyOut bytes offset

/-- The loop of `copyTo2` and `copyToStream2`: chunks before the offset are passed, and one that ends there is not,
so that nothing of it is copied. -/
def copyChunksFrom : List BinaryContainerChunk → (offset dataToCopy : Nat) → List Bytes
  | [], _, _ => []
  | currentChunk :: rest, offset, dataToCopy =>
    if currentChunk.size < offset then copyChunksFrom rest (offset - currentChunk.size) dataToCopy
    else
      let chunk := (currentChunk.data.drop offset).take dataToCopy
      if dataToCopy - chunk.length = 0 then [chunk] else chunk :: copyChunksFrom rest 0 (dataToCopy - chunk.length)

/-- The checks of `copyTo2` and `copyToStream2`; the other function copies the chunks. -/
def copyChecked {α : Type} (c : BChunks) (refused : Bool → α) (copied : List Bytes → α) (bytes offset : Nat) : α :=
  if bytes = 0 then refused true
  else if overflowSum offset bytes then refused false
  else if c.size < offset then refused false
  else
    let bytes := if c.size < offset + bytes then c.size - offset else bytes
    copied (copyChunksFrom c.chunksVector offset bytes)

/-- The checks of `B_Base::appendTo` and `B_Base::copyToStream` before them. -/
def baseChecked {α : Type} (c : BChunks) (refused : Bool → α) (copy2 : (bytes : Nat) → α) (bytes offset : Nat) : α :=
  match bytesToRead c.size bytes offset with
  | none => refused false
  | some bytes =>
    if overflowSum offset bytes then refused false
    else if bytes = 0 then refused true
    else if c.size < offset then refused false
    else copy2 (if c.size < offset + bytes then c.size - offset else bytes)

section
variable {σ : Type} (write : σ → Bytes → StreamableObject.Status × σ)

def copyTo2 (c : BChunks) (out : σ) (bytes offset : Nat) : Option (Outcome × σ) :=
  c.copyChecked (fun done => some ((done, 0), out))
    (fun chunks => (StreamableObject.copyToSOUsingCleanVector write chunks .new out).map fun (count, out) =>
      ((true, count), out)) bytes offset

def appendTo (c : BChunks) (out : σ) (bytes offset : Nat) : Option (Outcome × σ) :=
  c.baseChecked (fun done => some ((done, 0), out)) (fun bytes => c.copyTo2 write out bytes offset) bytes offset

end

/-- The loop of `copyToString` and `toString`, by blocks of `outmem`: whether it came to its end, and the string. -/
def copyToStringLoop (c : BChunks) : (turns : Nat) → (bytes offset : Nat) → (outStr : Bytes) → Bool × Bytes
  | 0, bytes, _, outStr => (bytes = 0, outStr)
  | turns + 1, bytes, offset, outStr =>
    if bytes = 0 then (true, outStr)
    else
      let copyBytes := if 8192 < bytes then 8192 else bytes
      match c.copyOutBytes copyBytes offset with
      | none => (false, outStr)
      | some outmem => copyToStringLoop c turns (bytes - copyBytes) (offset + copyBytes) (outStr ++ outmem)

/-- It reports the size of the string, of which some may have been there. -/
def copyToString (c : BChunks) (outStr : Bytes) (bytes offset : Nat) : Outcome × Bytes :=
  match bytesToRead c.size bytes offset with
  | none => ((false, 0), outStr)
  | some bytes =>
    if overflowSum offset bytes then ((false, 0), outStr)
    else if bytes = 0 then ((true, 0), outStr)
    else if c.size < offset + bytes then ((false, 0), outStr)
    else
      let (done, outStr) := c.copyToStringLoop bytes bytes offset outStr
      ((done, outStr.length), outStr)

def toString (c : BChunks) (bytes offset : Nat) : Bytes :=
  match bytesToRead c.size bytes offset with
  | none => []
  | some bytes =>
    if overflowSum offset bytes then []
    else if bytes = 0 then []
    else if c.size < offset + bytes then []
    else (c.copyToStringLoop bytes bytes offset []).2

/-- `B_Base::compare` of so many bytes, over `compare2`. -/
def compare (c : BChunks) (buf : Bytes) (caseSensitive : Bool) (offset : Nat) : Option Bool :=
  Container.compareChecked c.size buf offset ((Container.chunks c).compare2 buf caseSensitive offset)

/-! ## The walks -/

theorem copyChunksFrom_zero (chunks : List BinaryContainerChunk) (dataToCopy : Nat) :
    copyChunksFrom chunks 0 dataToCopy = copyChunks chunks dataToCopy := by
  induction chunks generalizing dataToCopy with
  | nil => rfl
  | cons currentChunk rest ih =>
    simp only [copyChunksFrom, copyChunks, Nat.not_lt_zero, if_false, List.drop_zero, ih]

theorem bytesToRead_front {currentSize bytes : Nat} (word : currentSize < 2 ^ 64) (le : bytes ≤ currentSize) :
    bytesToRead currentSize bytes 0 = some bytes := by
  unfold bytesToRead wholeContainer
  split
  · rw [if_neg (Nat.not_lt_zero _), Option.some_inj]
    omega
  · rfl

/-- So many bytes of the front, chunk by chunk. -/
theorem appendTo_front {c : BChunks} (counted : Counted c) {σ : Type} (write : σ → Bytes → StreamableObject.Status × σ)
    (out : σ) {bytes : Nat} (le : bytes ≤ c.size) :
    c.appendTo write out bytes 0 = if bytes = 0 then some ((true, 0), out) else
      (StreamableObject.copyToSOUsingCleanVector write (copyChunks c.chunksVector bytes) .new out).map
        fun (count, out) => ((true, count), out) := by
  have word : c.size < 2 ^ 64 := counted.word
  have sum : overflowSum 0 bytes = false := decide_eq_false (by omega)
  have clamped : (if c.size < 0 + bytes then c.size - 0 else bytes) = bytes := if_neg (by omega)
  unfold appendTo baseChecked copyTo2 copyChecked
  rw [bytesToRead_front word le]
  dsimp only
  rw [sum, clamped, sum, clamped, copyChunksFrom_zero, if_neg Bool.false_ne_true, if_neg Bool.false_ne_true,
    if_neg (Nat.not_lt_zero _)]
  split
  · rfl
  · rfl

/-- The bytes of the content from `offset` on, no more than `bytes` of them. -/
def slice (c : BChunks) (bytes offset : Nat) : Bytes := ((content c.chunksVector).drop offset).take bytes

section
variable {c : BChunks} {bytes offset : Nat}

theorem bytesToRead_below (currentSize : Nat) (below : bytes < wholeContainer) (offset : Nat) :
    bytesToRead currentSize bytes offset = some bytes := if_neg (Nat.ne_of_lt below)

variable (coherent : Coherent c)
include coherent

theorem copyOutBytes_eq (below : bytes < wholeContainer) (some : bytes ≠ 0) :
    c.copyOutBytes bytes offset = if offset + bytes ≤ c.size then .some (c.slice bytes offset) else none := by
  rw [copyOutBytes, bytesToRead_below c.size below, Option.bind_some]
  split
  · rename_i fits
    exact copyOut_eq coherent some fits
  · rename_i beyond
    unfold BChunks.copyOut
    split
    · rfl
    · exact if_pos (Nat.lt_of_not_le beyond)

omit coherent in
theorem copyOutBytes_zero (word : offset < 2 ^ 64) : c.copyOutBytes 0 offset = some [] := by
  have sum : overflowSum offset 0 = false := decide_eq_false (by omega)
  rw [copyOutBytes, bytesToRead_below c.size (by decide), Option.bind_some, BChunks.copyOut, sum, if_neg Bool.false_ne_true,
    if_pos rfl]

/-- Block after block, the loop copies the slice. -/
theorem copyToStringLoop_eq {turns : Nat} (enough : bytes ≤ turns) (fits : offset + bytes ≤ c.size) (outStr : Bytes) :
    c.copyToStringLoop turns bytes offset outStr = (true, outStr ++ c.slice bytes offset) := by
  induction turns generalizing bytes offset outStr with
  | zero =>
    have none : bytes = 0 := Nat.le_zero.mp enough
    rw [copyToStringLoop, none, slice, List.take_zero, List.append_nil]
    rfl
  | succ turns ih =>
    by_cases none : bytes = 0
    · rw [copyToStringLoop, if_pos none, none, slice, List.take_zero, List.append_nil]
    have block : (if 8192 < bytes then 8192 else bytes) = min 8192 bytes := by
      split <;> omega
    have below : min 8192 bytes < wholeContainer := by
      change min 8192 bytes < 2 ^ 64 - 1
      omega
    have read : c.copyOutBytes (min 8192 bytes) offset = some (c.slice (min 8192 bytes) offset) := by
      rw [copyOutBytes_eq coherent below (by omega), if_pos (by omega)]
    have rest := @ih (bytes - min 8192 bytes) (offset + min 8192 bytes) (by omega) (by omega)
      (outStr ++ c.slice (min 8192 bytes) offset)
    have parts : c.slice (min 8192 bytes) offset ++ c.slice (bytes - min 8192 bytes) (offset + min 8192 bytes) =
        c.slice bytes offset := by
      have sum : bytes = min 8192 bytes + (bytes - min 8192 bytes) := by omega
      conv_rhs => rw [slice, sum, List.take_add, List.drop_drop]
      rfl
    rw [copyToStringLoop, if_neg none]
    simp only [block, read, rest, List.append_assoc, parts]

theorem copyToString_copied (below : bytes < wholeContainer) (word : offset < 2 ^ 64) (outStr : Bytes) :
    (c.copyToString outStr bytes offset).1.1 = (c.copyOutBytes bytes offset).isSome ∧
      (c.copyToString outStr bytes offset).2 = outStr ++ (c.copyOutBytes bytes offset).getD [] := by
  unfold copyToString
  rw [bytesToRead_below c.size below]
  dsimp only
  by_cases none : bytes = 0
  · subst none
    have sum : overflowSum offset 0 = false := decide_eq_false (by omega)
    rw [copyOutBytes_zero word, sum, if_neg Bool.false_ne_true, if_pos rfl]
    exact ⟨rfl, (List.append_nil _).symm⟩
  rw [copyOutBytes_eq coherent below none]
  by_cases fits : offset + bytes ≤ c.size
  · have size := coherent.word
    have sum : overflowSum offset bytes = false := decide_eq_false (by unfold BChunks.size at fits; omega)
    rw [sum, if_neg Bool.false_ne_true, if_neg none, if_neg (Nat.not_lt.mpr fits), if_pos fits,
      copyToStringLoop_eq coherent (Nat.le_refl bytes) fits]
    exact ⟨rfl, rfl⟩
  · rw [if_neg fits]
    split
    · exact ⟨rfl, (List.append_nil _).symm⟩
    · rw [if_pos (Nat.lt_of_not_le fits)]
      exact ⟨rfl, (List.append_nil _).symm⟩

theorem toString_copied (below : bytes < wholeContainer) (word : offset < 2 ^ 64) :
    c.toString bytes offset = (c.copyOutBytes bytes offset).getD [] := by
  have same : c.toString bytes offset = (c.copyToString [] bytes offset).2 := by
    unfold toString copyToString
    rw [bytesToRead_below c.size below]
    dsimp only
    split
    · rfl
    split
    · rfl
    split
    · rfl
    · rfl
  rw [same, (copyToString_copied coherent below word []).2, List.nil_append]

end

end BChunks

end Mantids.Memory
