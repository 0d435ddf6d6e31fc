import Mantids.Memory.Find

/-! Looking for bytes in any container: `B_Base::find` over what linear memory (`b_mem.cpp`), chunks, a
mapped file (`b_mmap.cpp`) and the window of another container (`b_ref.cpp`) make of it. -/

set_option autoImplicit false

namespace Mantids.Memory

/-! ## The comparison of memory (`mem.cpp`) -/

namespace Mem

def KB_MULT : Nat := 1024

/-- `cmpMatrix` takes the capital letters to the small ones. -/
def icharcmp (c1 c2 : UInt8) : Bool := BChunks.tolower c1 = BChunks.tolower c2

/-- The loop of `memcmp64`: are the first `n` bytes the same. The size of a block stays as it is, so a last
block that is smaller is read past its end. -/
def memcmpLoop (curBlock : Nat) : (turns : Nat) → (s1 s2 : Bytes) → (n : Nat) → Option Bool
  | 0, _, _, n => if n = 0 then some true else none
  | turns + 1, s1, s2, n =>
    if n = 0 then some true
    else if n < curBlock then none
    else if s1.take curBlock ≠ s2.take curBlock then some false
    else memcmpLoop curBlock turns (s1.drop curBlock) (s2.drop curBlock) (n - curBlock)

def memcmp64 (s1 s2 : Bytes) (n : Nat) : Option Bool :=
  memcmpLoop (if 64 * KB_MULT < n then 64 * KB_MULT else n) n s1 s2 n

def memicmp2 (s1 s2 : Bytes) (n : Nat) (caseSensitive : Bool) : Option Bool :=
  if caseSensitive then memcmp64 s1 s2 n else some (((s1.take n).zip (s2.take n)).all fun c => icharcmp c.1 c.2)

end Mem

namespace BChunks

/-! ## Chunks in both modes -/

/-- In this container it is the search that asks for the case that tries both. -/
def memchrMode (caseSensitive : Bool) (data : Bytes) (c : UInt8) : Option Nat :=
  if (caseSensitive && isLetter c) = false then memchr data c
  else nearest (memchr data (toupper c)) (memchr data (tolower c))

/-- The chunk loop of `findChar`. -/
def findCharModeLoop (caseSensitive : Bool) (c : UInt8) :
    List BinaryContainerChunk → (offset searchSpace retpos : Nat) → Option Nat
  | [], _, _, _ => none
  | originalChunk :: rest, offset, searchSpace, retpos =>
    if originalChunk.size < offset then
      findCharModeLoop caseSensitive c rest (offset - originalChunk.size) searchSpace (retpos + originalChunk.size)
    else
      let currentData := originalChunk.data.drop offset
      match memchrMode caseSensitive (currentData.take searchSpace) c with
      | some pos => some (pos + offset + retpos)
      | none =>
        if currentData.length < searchSpace then
          findCharModeLoop caseSensitive c rest 0 (searchSpace - currentData.length) (retpos + originalChunk.size)
        else none

/-- The chunk loop of `compare2`. -/
def compareModeLoop (caseSensitive : Bool) : List BinaryContainerChunk → (offset : Nat) → Bytes → Option Bool
  | [], _, buf => some (buf = [])
  | i :: rest, offset, buf =>
    if i.size < offset then compareModeLoop caseSensitive rest (offset - i.size) buf
    else
      let currentData := i.data.drop offset
      let currentChunkSize := if currentData.length < buf.length then currentData.length else buf.length
      match Mem.memicmp2 currentData buf currentChunkSize caseSensitive with
      | none => none
      | some false => some false
      | some true =>
        if buf.drop currentChunkSize = [] then some true
        else compareModeLoop caseSensitive rest 0 (buf.drop currentChunkSize)

end BChunks

/-! ## The containers -/

/-- A window has its end where it was set, or where the other container ends: `referencedMaxBytes` is the
largest 64-bit number then. -/
inductive Container where
  | mem (linearMem : Bytes)
  | chunks (container : BChunks)
  | mmap (linearMem : Bytes)
  | ref (referencedBC : Container) (referencedOffset referencedMaxBytes : Nat)

namespace Container

def size : Container → Nat
  | mem linearMem => linearMem.length
  | chunks container => container.size
  | mmap linearMem => linearMem.length
  | ref referencedBC referencedOffset referencedMaxBytes =>
    let availableBytes := (referencedBC.size + 2 ^ 64 - referencedOffset) % 2 ^ 64
    if referencedMaxBytes = 2 ^ 64 - 1 ∨ availableBytes < referencedMaxBytes then availableBytes
    else referencedMaxBytes

/-- What no position has. -/
def npos : Nat := 2 ^ 64 - 1

/-- `B_MEM::findChar`: no search space is all of the rest. -/
def findCharMem (linearMem : Bytes) (c : UInt8) (offset searchSpace : Nat) (caseSensitive : Bool) : Outcome :=
  let currentSize := linearMem.length
  if currentSize = 0 then (false, 0)
  else if overflowSum offset searchSpace then (false, npos)
  else if currentSize < offset + searchSpace then (false, npos)
  else
    let searchSpace := if searchSpace = 0 then currentSize - offset else searchSpace
    let data := (linearMem.drop offset).take searchSpace
    let cPos :=
      if caseSensitive && BChunks.isLetter c then BChunks.memchr data c
      else BChunks.nearest (BChunks.memchr data (BChunks.toupper c)) (BChunks.memchr data (BChunks.tolower c))
    match cPos with
    | none => (false, 0)
    | some pos => (true, pos + offset)

def findCharChunks (container : BChunks) (c : UInt8) (offset searchSpace : Nat) (caseSensitive : Bool) : Outcome :=
  if overflowSum offset searchSpace then (false, npos)
  else if container.size < offset ∨ container.size < offset + searchSpace then (false, npos)
  else
    match BChunks.findCharModeLoop caseSensitive c container.chunksVector offset searchSpace 0 with
    | none => (false, 0)
    | some pos => (true, pos)

/-- A window does not take its own offset off the position that the other container finds. -/
def findChar : Container → (c : UInt8) → (offset searchSpace : Nat) → (caseSensitive : Bool) → Outcome
  | mem linearMem, c, offset, searchSpace, caseSensitive => findCharMem linearMem c offset searchSpace caseSensitive
  | chunks container, c, offset, searchSpace, caseSensitive =>
    findCharChunks container c offset searchSpace caseSensitive
  | mmap linearMem, c, offset, searchSpace, caseSensitive =>
    findCharMem linearMem c offset searchSpace (caseSensitive && BChunks.isLetter c)
  | ref referencedBC referencedOffset _, c, offset, searchSpace, caseSensitive =>
    referencedBC.findChar c ((referencedOffset + offset) % 2 ^ 64) searchSpace (caseSensitive && BChunks.isLetter c)

/-- The checks in front of a comparison. -/
def compareChecked (size : Nat) (buf : Bytes) (offset : Nat) (compare2 : Option Bool) : Option Bool :=
  if overflowSum offset buf.length then some false
  else if buf = [] then some true
  else if size < offset + buf.length then some false
  else compare2

def compareMem (linearMem buf : Bytes) (caseSensitive : Bool) (offset : Nat) : Option Bool :=
  compareChecked linearMem.length buf offset (Mem.memicmp2 (linearMem.drop offset) buf buf.length caseSensitive)

/-- `none` reads memory that is not there. A window compares no more than it has left. -/
def compare2 : Container → (buf : Bytes) → (caseSensitive : Bool) → (offset : Nat) → Option Bool
  | mem linearMem, buf, caseSensitive, offset => compareMem linearMem buf caseSensitive offset
  | chunks container, buf, caseSensitive, offset =>
    compareChecked container.size buf offset
      (BChunks.compareModeLoop caseSensitive container.chunksVector offset buf)
  | mmap linearMem, buf, caseSensitive, offset =>
    compareChecked linearMem.length buf offset (compareMem linearMem buf caseSensitive offset)
  | ref referencedBC referencedOffset referencedMaxBytes, buf, caseSensitive, offset =>
    let size := (ref referencedBC referencedOffset referencedMaxBytes).size
    if size < offset then some false
    else
      let compared := buf.take (size - offset)
      let referenced := (referencedOffset + offset) % 2 ^ 64
      compareChecked referencedBC.size compared referenced (referencedBC.compare2 compared caseSensitive referenced)

/-- The bytes of the container that the others are windows of. -/
def extent : Container → Nat
  | ref referencedBC _ _ => referencedBC.extent
  | container => container.size

/-- The loop of `find`: from one candidate for the first character to the next. -/
def findLoop (container : Container) (first : UInt8) (needle : Bytes) (caseSensitive : Bool) :
    (turns currentOffset searchSpace : Nat) → Option Outcome
  | 0, _, _ => none
  | turns + 1, currentOffset, searchSpace =>
    match container.findChar first currentOffset searchSpace caseSensitive with
    | (false, _) => some (false, 0)
    | (true, pos) =>
      let displacement := (pos + 2 ^ 64 - currentOffset) % 2 ^ 64
      let currentOffset := (currentOffset + displacement) % 2 ^ 64
      let searchSpace := (searchSpace + 2 ^ 64 - displacement) % 2 ^ 64
      match container.compare2 needle caseSensitive currentOffset with
      | none => none
      | some true => some (true, currentOffset)
      | some false =>
        if searchSpace = 0 then some (false, 0)
        else container.findLoop first needle caseSensitive turns ((currentOffset + 1) % 2 ^ 64) (searchSpace - 1)

def find (container : Container) (needle : Bytes) (caseSensitive : Bool) (offset searchSpace : Nat) : Option Outcome :=
  let currentSize := container.size
  if overflowSum offset needle.length then some (false, npos)
  else if overflowSum offset searchSpace then some (false, npos)
  else if currentSize < offset then some (false, npos)
  else
    let searchSpace := if searchSpace = 0 then currentSize - offset else searchSpace
    if searchSpace = 0 then some (false, 0)
    else if searchSpace < needle.length then some (false, npos)
    else
      match needle with
      | [] => some (true, 0)
      | first :: _ => container.findLoop first needle caseSensitive (container.extent + 1) offset searchSpace

/-! ## What a container holds -/

def content : Container → Bytes
  | mem linearMem => linearMem
  | chunks container => Memory.content container.chunksVector
  | mmap linearMem => linearMem
  | ref referencedBC referencedOffset referencedMaxBytes =>
    (referencedBC.content.drop referencedOffset).take (ref referencedBC referencedOffset referencedMaxBytes).size

/-- Linear memory, also of a file, has a size of 32 bits, and a window begins in what it is a window of. -/
def Valid : Container → Prop
  | mem linearMem => linearMem.length < 2 ^ 32
  | chunks container => container.Counted
  | mmap linearMem => linearMem.length < 2 ^ 32
  | ref referencedBC referencedOffset referencedMaxBytes =>
    referencedBC.Valid ∧ referencedOffset ≤ referencedBC.size ∧ referencedMaxBytes < 2 ^ 64

end Container

/-! ## What is sought -/

/-- As the comparison sees the bytes. -/
def sighted (caseSensitive : Bool) (bytes : Bytes) : Bytes :=
  if caseSensitive then bytes else bytes.map BChunks.tolower

/-- The search space of a call: none is all of the rest. -/
def spaceOf (s : Bytes) (offset searchSpace : Nat) : Nat := if searchSpace = 0 then s.length - offset else searchSpace

/-- The leftmost occurrence that lies in the search space. -/
def leftmost (s needle : Bytes) (caseSensitive : Bool) (offset searchSpace : Nat) : Option Nat :=
  (Library.occurrence (sighted caseSensitive needle)
    (sighted caseSensitive ((s.drop offset).take (spaceOf s offset searchSpace)))).map (· + offset)

/-- Every container that holds the bytes finds it, or nothing if there is none. -/
def SearchAgrees (s needle : Bytes) (caseSensitive : Bool) (offset searchSpace : Nat) : Prop :=
  ∀ container : Container, container.Valid → container.content = s →
    ∃ found, container.find needle caseSensitive offset searchSpace = some found ∧
      match leftmost s needle caseSensitive offset searchSpace with
      | some pos => found = (true, pos)
      | none => found.1 = false

end Mantids.Memory
