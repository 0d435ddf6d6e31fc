import Mantids.Memory.Chunks

/-! Copying out of a container by offset (`B_Base::copyOut` over `B_Chunks`), which
trusts the offsets of the chunks. -/

set_option autoImplicit false

namespace Mantids.Memory.BChunks

def getSizeLeft (c : BChunks) : Nat := if c.limits.maxSize < c.size then 0 else c.limits.maxSize - c.size

def setMaxSize (c : BChunks) (value : Fin (2 ^ 64)) : BChunks :=
  { c with limits := { c.limits with maxSize := value, size_word := value.isLt } }

/-- The loop of `copyOut2`, from the chunk that the search has found. -/
def copyOutLoop : List BinaryContainerChunk → (bytes : Nat) → Bytes
  | [], _ => []
  | currentChunk :: rest, bytes =>
    if currentChunk.size < bytes then currentChunk.data ++ copyOutLoop rest (bytes - currentChunk.size)
    else currentChunk.data.take bytes

/-- `none` when nothing is copied; a found chunk is moved to the offset first. -/
def copyOut (c : BChunks) (bytes offset : Nat) : Option Bytes :=
  if overflowSum offset bytes then none
  else if bytes = 0 then some []
  else if c.size < offset + bytes then none
  else
    match iChunkGetPosForOffset c.chunksVector offset with
    | .found icurrentChunk =>
      match c.chunksVector.drop icurrentChunk with
      | [] => none
      | currentChunk :: rest => some (copyOutLoop (currentChunk.moveToOffset offset :: rest) bytes)
    | _ => none

/-- The chunks that `copyTo2` takes so many bytes of. -/
def copyChunks : List BinaryContainerChunk → (dataToCopy : Nat) → List Bytes
  | [], _ => []
  | currentChunk :: rest, dataToCopy =>
    let chunk := currentChunk.data.take dataToCopy
    if dataToCopy - chunk.length = 0 then [chunk] else chunk :: copyChunks rest (dataToCopy - chunk.length)

end Mantids.Memory.BChunks
