import Mantids.Memory.Chunk

/-! The chunked container (`b_chunks.cpp`) in memory mode: the limits and edits of
`B_Base` with the `B_Chunks` overrides behind them. -/

set_option autoImplicit false

namespace Mantids.Memory

/-- What a container is configured with. `setMaxChunks` stores at most the largest
32-bit number, `maxChunkSize` is 32-bit and `maxSize` 64-bit. -/
structure Limits where
  maxSize : Nat
  maxChunks : Nat
  maxChunkSize : Nat
  size_word : maxSize < 2 ^ 64
  chunks_word : maxChunks < 2 ^ 32
  chunkSize_word : maxChunkSize < 2 ^ 32

/-- The limits a constructor sets. -/
def Limits.default : Limits where
  maxSize := 2 ^ 64 - 1
  maxChunks := 256 * 1024
  maxChunkSize := 64 * 1024
  size_word := maxSize_word
  chunks_word := by decide
  chunkSize_word := by decide

structure BChunks where
  chunksVector : List BinaryContainerChunk
  containerBytes : Nat
  limits : Limits

/-- `containerBytes` tells the size of the content. -/
structure BChunks.Counted (c : BChunks) : Prop where
  bytes : c.containerBytes = totalSize c.chunksVector
  word : c.containerBytes < 2 ^ 64

theorem BChunks.Counted.length_drop {c : BChunks} (counted : Counted c) (offset : Nat) :
    ((content c.chunksVector).drop offset).length = c.containerBytes - offset := by
  rw [List.length_drop, length_content, counted.bytes]

/-- The result pair of the container's operations: success and a byte count. -/
abbrev Outcome := Bool × Nat

/-- `CHECK_UINT_OVERFLOW_SUM` on 64-bit operands. -/
def overflowSum (a b : Nat) : Bool := decide (2 ^ 64 ≤ a + b)

namespace BChunks

def empty (limits : Limits) : BChunks := ⟨[], 0, limits⟩

def size (c : BChunks) : Nat := c.containerBytes

def incContainerBytesCount (c : BChunks) (i : Nat) : BChunks :=
  { c with containerBytes := (c.containerBytes + i) % 2 ^ 64 }

def decContainerBytesCount (c : BChunks) (i : Nat) : BChunks :=
  { c with containerBytes := (c.containerBytes + 2 ^ 64 - i) % 2 ^ 64 }

/-- The loop of `recalcChunkOffsets`. The source takes `i` as the address of the
first chunk and counts `vpos` up without moving `i`, so every turn writes there. -/
def recalcLoop : (turns currentOffset : Nat) → BinaryContainerChunk → BinaryContainerChunk
  | 0, _, i => i
  | turns + 1, currentOffset, i =>
    let i := { i with offset := currentOffset }
    recalcLoop turns i.nextOffset i

def recalcChunkOffsets : List BinaryContainerChunk → List BinaryContainerChunk
  | [] => []
  | first :: rest => recalcLoop (rest.length + 1) 0 first :: rest

def nextFreeOffset (chunks : List BinaryContainerChunk) : Nat :=
  match chunks.getLast? with
  | none => 0
  | some last => last.nextOffset

/-- One new chunk, at the back or, when prepending, in front with offset zero. -/
def insertChunk (prependMode : Bool) (c : BChunks) (buf : Bytes) : BChunks :=
  incContainerBytesCount { c with
    chunksVector :=
      if prependMode then ⟨buf, 0⟩ :: c.chunksVector
      else c.chunksVector ++ [⟨buf, nextFreeOffset c.chunksVector⟩] } buf.length

/-- The `while (len)` loop of `append2`. Every turn adds a chunk, so the recursion
is on `room`, the number of chunks that may still be added. -/
def insertLoop (prependMode : Bool) : (room : Nat) → Bytes → (appended : Nat) → BChunks → Outcome × BChunks
  | _, [], appended, c =>
    ((true, appended),
      if prependMode then { c with chunksVector := recalcChunkOffsets c.chunksVector } else c)
  | 0, _ :: _, appended, c => ((false, appended), c)
  | room + 1, byte :: rest, appended, c =>
    let chunk := (byte :: rest).take c.limits.maxChunkSize
    insertLoop prependMode room ((byte :: rest).drop c.limits.maxChunkSize)
      (appended + chunk.length) (insertChunk prependMode c chunk)

def append2 (c : BChunks) (buf : Bytes) (prependMode : Bool) : Outcome × BChunks :=
  if overflowSum buf.length c.size then ((false, 0), c)
  else insertLoop prependMode (c.limits.maxChunks - c.chunksVector.length) buf 0 c

/-- The checks that `B_Base::append` and `B_Base::prepend` share. -/
def insert (prependMode : Bool) (c : BChunks) (data : Bytes) : Outcome × BChunks :=
  if overflowSum data.length c.size then ((false, 0), c)
  else if c.limits.maxSize < data.length + c.size then ((false, 0), c)
  else if data = [] then ((true, 0), c)
  else append2 c data prependMode

def append (c : BChunks) (data : Bytes) : Outcome × BChunks := insert false c data

def prepend (c : BChunks) (data : Bytes) : Outcome × BChunks := insert true c data

/-- The `while (bytesToDisplace)` loop of `displace2`: whole chunks first, then a cut. -/
def displaceLoop : List BinaryContainerChunk → (bytesToDisplace displaced : Nat) → BChunks → Nat × BChunks
  | [], _, displaced, c => (displaced, { c with chunksVector := [] })
  | first :: rest, bytesToDisplace, displaced, c =>
    if bytesToDisplace = 0 then
      (displaced, { c with chunksVector := recalcChunkOffsets (first :: rest) })
    else if first.size ≤ bytesToDisplace then
      displaceLoop rest (bytesToDisplace - first.size) (displaced + first.size)
        (c.decContainerBytesCount first.size)
    else
      (displaced + bytesToDisplace,
        { c.decContainerBytesCount bytesToDisplace with
          chunksVector := recalcChunkOffsets (first.displace bytesToDisplace :: rest) })

def displace2 (c : BChunks) (bytes : Nat) : Outcome × BChunks :=
  let (displaced, c) := displaceLoop c.chunksVector bytes 0 c
  ((true, displaced), c)

def displace (c : BChunks) (bytes : Nat) : Outcome × BChunks :=
  displace2 c (if c.size < bytes then c.size else bytes)

end BChunks

/-- Where the recursion of `I_Chunk_GetPosForOffset` ends. `fault` stands for an
index outside the vector or a recursion deeper than the vector is long. -/
inductive Search where
  | fault
  | missing
  | found (pos : Nat)
  deriving DecidableEq, Repr

namespace BChunks

def middle (curmin curmax : Nat) : Nat :=
  if curmin = curmax then curmin else curmin + (curmax + 1 - curmin) / 2 - (curmax - curmin) % 2

def searchFrom (chunks : List BinaryContainerChunk) (offset : Nat) :
    (fuel curpos curmax curmin : Nat) → Search
  | 0, _, _, _ => .fault
  | fuel + 1, curpos, curmax, curmin =>
    match chunks[curpos]? with
    | none => .fault
    | some chunk =>
      if chunk.containsOffset offset then .found curpos
      else if offset < chunk.offset then
        if curpos = curmin then .missing
        else searchFrom chunks offset fuel (middle curmin (curpos - 1)) (curpos - 1) curmin
      else
        if curpos = curmax then .missing
        else searchFrom chunks offset fuel (middle (curpos + 1) curmax) curmax (curpos + 1)

def iChunkGetPosForOffset (chunks : List BinaryContainerChunk) (offset : Nat) : Search :=
  if chunks.length = 0 then .missing
  else
    searchFrom chunks offset chunks.length (if chunks.length = 1 then 0 else chunks.length / 2 - 1)
      (if chunks.length = 1 then 0 else chunks.length - 1) 0

/-- `ival--` before `resize(ival + 1)` keeps `ival` chunks, also for `ival = 0`,
where the unsigned index wraps around and back. -/
def truncate2 (c : BChunks) (bytes : Nat) : Outcome × BChunks :=
  match iChunkGetPosForOffset c.chunksVector bytes with
  | .found ival =>
    match c.chunksVector[ival]? with
    | none => ((false, 0), c)
    | some chunk =>
      let kept :=
        if chunk.offset = bytes then c.chunksVector.take ival
        else c.chunksVector.take ival ++ [chunk.truncate bytes]
      ((true, bytes), { c with chunksVector := kept, containerBytes := bytes })
  | _ => ((false, 0), c)

def truncate (c : BChunks) (bytes : Nat) : Outcome × BChunks :=
  if c.size ≤ bytes then ((false, c.size), c) else truncate2 c bytes

def clear (c : BChunks) : BChunks := { c with chunksVector := [], containerBytes := 0 }

/-- The calls that change a container. -/
inductive Edit where
  | append (buf : Bytes)
  | prepend (buf : Bytes)
  | displace (bytes : Nat)
  | truncate (bytes : Nat)
  | clear
  deriving Repr

def edit (c : BChunks) : Edit → BChunks
  | .append buf => (c.append buf).2
  | .prepend buf => (c.prepend buf).2
  | .displace bytes => (c.displace bytes).2
  | .truncate bytes => (c.truncate bytes).2
  | .clear => c.clear

end BChunks

end Mantids.Memory
