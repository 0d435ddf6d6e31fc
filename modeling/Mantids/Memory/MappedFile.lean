import Mantids.Library.Refinement
import Mantids.Memory.Containers

/-! The container in a mapped file (`filemap.cpp`, `b_mmap.cpp`), with a file system that grants everything:
its size is that of the file when it was opened. -/

set_option autoImplicit false

namespace Mantids.Memory

/-! ## Moving memory (`mem.cpp`) -/

namespace Mem

/-- `none` reads or writes outside the mapping. -/
def memmove (mapped : Bytes) (dest src n : Nat) : Option Bytes :=
  if src + n ≤ mapped.length ∧ dest + n ≤ mapped.length then
    some (mapped.take dest ++ (mapped.drop src).take n ++ mapped.drop (dest + n))
  else none

/-- The loop of `memmove64` towards the front. The size of a block stays as it is: with a last block that is
smaller, the bytes that are left wrap around and the loop runs out of the mapping. -/
def moveFrontLoop (curBlock dest src : Nat) : (turns curOffset n : Nat) → Bytes → Option Bytes
  | 0, _, n, mapped => if n = 0 then some mapped else none
  | turns + 1, curOffset, n, mapped =>
    if n = 0 then some mapped
    else if n < curBlock then none
    else
      (memmove mapped (dest + curOffset) (src + curOffset) curBlock).bind
        (moveFrontLoop curBlock dest src turns (curOffset + curBlock) (n - curBlock))

/-- The loop towards the back, from the end. -/
def moveBackLoop (curBlock dest src : Nat) : (turns n : Nat) → Bytes → Option Bytes
  | 0, n, mapped => if n = 0 then some mapped else none
  | turns + 1, n, mapped =>
    if n = 0 then some mapped
    else if n < curBlock then none
    else
      (memmove mapped (dest + n - curBlock) (src + n - curBlock) curBlock).bind
        (moveBackLoop curBlock dest src turns (n - curBlock))

def memmove64 (mapped : Bytes) (dest src n : Nat) : Option Bytes :=
  let curBlock := if 64 * KB_MULT < n then 64 * KB_MULT else n
  if src < dest then moveBackLoop curBlock dest src n n mapped
  else if dest < src then moveFrontLoop curBlock dest src n 0 n mapped
  else some mapped

end Mem

/-! ## The file -/

namespace FileMap

/-- What is added to a file is zero. -/
def mmapTruncate (mapped : Bytes) (nSize : Nat) : Bytes := mapped.take nSize ++ List.replicate (nSize - mapped.length) 0

def mmapDisplace (mapped : Bytes) (offsetBytes : Nat) : Option Bytes :=
  (Mem.memmove64 mapped 0 offsetBytes (mapped.length - offsetBytes)).map fun moved =>
    mmapTruncate moved (mapped.length - offsetBytes)

def mmapAppend (mapped buf : Bytes) : Option (Outcome × Bytes) :=
  if buf = [] then some ((true, 0), mapped)
  else
    let curOpenSize := mapped.length
    let grown := mmapTruncate mapped (curOpenSize + buf.length)
    some ((true, buf.length), grown.take curOpenSize ++ buf)

/-- The bytes that are there are moved from behind, and not to it. -/
def mmapPrepend (mapped buf : Bytes) : Option (Outcome × Bytes) :=
  if buf = [] then some ((true, 0), mapped)
  else
    let curOpenSize := mapped.length
    let grown := mmapTruncate mapped (curOpenSize + buf.length)
    (Mem.memmove64 grown 0 buf.length curOpenSize).map fun moved => ((true, buf.length), buf ++ moved.drop buf.length)

end FileMap

/-- A file in memory, and the size of the linear memory that refers to it. -/
structure BMMap where
  mapped : Bytes
  memSize : Nat

/-- The edits of a container. -/
inductive Change where
  | append (buf : Bytes)
  | prepend (buf : Bytes)
  | displace (bytes : Nat)
  | truncate (bytes : Nat)
  deriving DecidableEq, Repr

namespace BMMap

/-- Linear memory takes a size of 32 bits. -/
def referenceFile (file : Bytes) : BMMap := ⟨file, file.length % 2 ^ 32⟩

def size (c : BMMap) : Nat := c.memSize

/-- The linear memory refers to the new mapping with the size that it had before. -/
def reMapMemoryContainer (c : BMMap) (mapped : Bytes) : BMMap := ⟨mapped, c.size % 2 ^ 32⟩

/-- What is read back of all bytes. -/
def copyOut (c : BMMap) : Option Bytes := if c.size ≤ c.mapped.length then some (c.mapped.take c.size) else none

def append2 (c : BMMap) (buf : Bytes) (prependMode : Bool) : Option (Outcome × BMMap) :=
  (if prependMode then FileMap.mmapPrepend c.mapped buf else FileMap.mmapAppend c.mapped buf).map
    fun (addedBytes, mapped) => (addedBytes, c.reMapMemoryContainer mapped)

def displace2 (c : BMMap) (bytesToDisplace : Nat) : Option (Outcome × BMMap) :=
  if c.mapped.length < bytesToDisplace then some ((false, 0), c)
  else
    (FileMap.mmapDisplace c.mapped bytesToDisplace).map fun mapped =>
      ((true, bytesToDisplace), c.reMapMemoryContainer mapped)

def truncate2 (c : BMMap) (bytes : Nat) : Option (Outcome × BMMap) :=
  let c := c.reMapMemoryContainer (FileMap.mmapTruncate c.mapped bytes)
  some ((false, c.size), c)

/-- `B_Base::append` and `B_Base::prepend`. -/
def insert (c : BMMap) (prependMode : Bool) (data : Bytes) : Option (Outcome × BMMap) :=
  if overflowSum data.length c.size then some ((false, 0), c)
  else if Limits.default.maxSize < data.length + c.size then some ((false, 0), c)
  else if data = [] then some ((true, 0), c)
  else c.append2 data prependMode

def displace (c : BMMap) (bytes : Nat) : Option (Outcome × BMMap) := c.displace2 (if c.size < bytes then c.size else bytes)

def truncate (c : BMMap) (bytes : Nat) : Option (Outcome × BMMap) :=
  if c.size ≤ bytes then some ((false, c.size), c) else c.truncate2 bytes

def change (c : BMMap) : Change → Option (Outcome × BMMap)
  | .append buf => c.insert false buf
  | .prepend buf => c.insert true buf
  | .displace bytes => c.displace bytes
  | .truncate bytes => c.truncate bytes

end BMMap

/-! ## What the edits are for -/

/-- The edits of a string of bytes. -/
def ideal (s : Bytes) : Change → Outcome × Bytes
  | .append buf => ((true, buf.length), s ++ buf)
  | .prepend buf => ((true, buf.length), buf ++ s)
  | .displace bytes => ((true, min bytes s.length), s.drop bytes)
  | .truncate bytes => if s.length ≤ bytes then ((false, s.length), s) else ((true, bytes), s.take bytes)

/-- The edit changes nothing. -/
def Idle (s : Bytes) (change : Change) : Prop := (ideal s change).2 = s

end Mantids.Memory
