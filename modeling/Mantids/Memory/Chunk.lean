import Mathlib

/-! Chunks of memory (`b_chunk.h`) and vectors of them. Offsets and counters are
64-bit in the source, so sums that the code lets wrap are taken modulo `2 ^ 64`. -/

set_option autoImplicit false

namespace Mantids.Memory

abbrev Bytes := List UInt8

/-- What is said of the bytes of a text is decided over the text, and not over all bytes. -/
instance (priority := 2000) {p : UInt8 → Prop} [DecidablePred p] (text : Bytes) : Decidable (∀ byte ∈ text, p byte) :=
  List.decidableBAll p text

/-- What is filed under a text stands in the order of the texts. -/
instance preorderByte : Std.IsPreorder UInt8 := inferInstance

instance irreflText : Std.Irrefl (α := Bytes) (· < ·) := List.ltIrrefl

theorem maxSize_word : 2 ^ 64 - 1 < 2 ^ 64 := by decide

/-- The source keeps `size` next to `data` and writes them together. -/
structure BinaryContainerChunk where
  data : Bytes
  offset : Nat
  deriving DecidableEq, Repr

namespace BinaryContainerChunk

def size (chunk : BinaryContainerChunk) : Nat := chunk.data.length

def nextOffset (chunk : BinaryContainerChunk) : Nat := (chunk.size + chunk.offset) % 2 ^ 64

def containsOffset (chunk : BinaryContainerChunk) (lOffset : Nat) : Bool :=
  decide (chunk.offset ≤ lOffset ∧ lOffset < chunk.nextOffset)

def destroy (chunk : BinaryContainerChunk) : BinaryContainerChunk := { chunk with data := [] }

def displace (chunk : BinaryContainerChunk) (displLen : Nat) : BinaryContainerChunk :=
  if displLen = 0 then chunk
  else if chunk.size ≤ displLen then chunk.destroy
  else { chunk with data := chunk.data.drop displLen }

def truncate (chunk : BinaryContainerChunk) (nSize : Nat) : BinaryContainerChunk :=
  if chunk.nextOffset ≤ nSize then chunk
  else if nSize = 0 ∨ nSize = chunk.offset then chunk
  else { chunk with data := chunk.data.take (nSize - chunk.offset) }

def moveToOffset (chunk : BinaryContainerChunk) (lOffset : Nat) : BinaryContainerChunk :=
  ⟨chunk.data.drop (lOffset - chunk.offset), 0⟩

end BinaryContainerChunk

/-- The payloads in order: what a vector of chunks stores. -/
def content (chunks : List BinaryContainerChunk) : Bytes := chunks.flatMap (·.data)

def totalSize (chunks : List BinaryContainerChunk) : Nat := (chunks.map (·.size)).sum

@[simp] theorem content_nil : content [] = [] := rfl

@[simp] theorem content_cons (chunk : BinaryContainerChunk) (rest : List BinaryContainerChunk) :
    content (chunk :: rest) = chunk.data ++ content rest := rfl

@[simp] theorem content_append (front back : List BinaryContainerChunk) :
    content (front ++ back) = content front ++ content back := by
  simp [content]

@[simp] theorem totalSize_nil : totalSize [] = 0 := rfl

@[simp] theorem totalSize_cons (chunk : BinaryContainerChunk) (rest : List BinaryContainerChunk) :
    totalSize (chunk :: rest) = chunk.size + totalSize rest := by
  simp [totalSize]

@[simp] theorem totalSize_append (front back : List BinaryContainerChunk) :
    totalSize (front ++ back) = totalSize front + totalSize back := by
  simp [totalSize]

theorem length_content (chunks : List BinaryContainerChunk) :
    (content chunks).length = totalSize chunks := by
  induction chunks with
  | nil => rfl
  | cons chunk rest ih => simp [ih, BinaryContainerChunk.size]

/-- Each chunk starts where the one before it ends, the first at `start`. -/
def OffsetsFrom : Nat → List BinaryContainerChunk → Prop
  | _, [] => True
  | start, chunk :: rest => chunk.offset = start ∧ OffsetsFrom (start + chunk.size) rest

theorem offsetsFrom_append (start : Nat) (front back : List BinaryContainerChunk) :
    OffsetsFrom start (front ++ back) ↔
      OffsetsFrom start front ∧ OffsetsFrom (start + totalSize front) back := by
  induction front generalizing start with
  | nil => simp [OffsetsFrom]
  | cons chunk rest ih =>
    simp only [List.cons_append, OffsetsFrom, ih, totalSize_cons, and_assoc, Nat.add_assoc]

theorem offsetsFrom_iff (start : Nat) (chunks : List BinaryContainerChunk) :
    OffsetsFrom start chunks ↔
      ∀ i (bound : i < chunks.length), chunks[i].offset = start + totalSize (chunks.take i) := by
  induction chunks generalizing start with
  | nil => simp [OffsetsFrom]
  | cons chunk rest ih =>
    rw [OffsetsFrom, ih]
    constructor
    · rintro ⟨first, later⟩ i bound
      cases i with
      | zero => simpa using first
      | succ i =>
        have next := later i (Nat.lt_of_succ_lt_succ bound)
        simpa [Nat.add_assoc] using next
    · intro all
      have first := all 0 (Nat.zero_lt_succ _)
      refine ⟨by simpa using first, fun i bound => ?_⟩
      have next := all (i + 1) (Nat.succ_lt_succ bound)
      simpa [Nat.add_assoc] using next

theorem OffsetsFrom.getElem {start : Nat} {chunks : List BinaryContainerChunk}
    (contiguous : OffsetsFrom start chunks) {i : Nat} (bound : i < chunks.length) :
    chunks[i].offset = start + totalSize (chunks.take i) :=
  (offsetsFrom_iff start chunks).mp contiguous i bound

theorem totalSize_take_succ {chunks : List BinaryContainerChunk} {i : Nat} (bound : i < chunks.length) :
    totalSize (chunks.take (i + 1)) = totalSize (chunks.take i) + chunks[i].size := by
  rw [List.take_add_one, List.getElem?_eq_getElem bound, totalSize_append]
  rfl

theorem totalSize_take_le (chunks : List BinaryContainerChunk) (i : Nat) :
    totalSize (chunks.take i) ≤ totalSize chunks := by
  conv_rhs => rw [← List.take_append_drop i chunks, totalSize_append]
  exact Nat.le_add_right _ _

end Mantids.Memory
