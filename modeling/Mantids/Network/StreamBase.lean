import Mantids.Memory.Chunk

/-! Typed values on a stream socket: `Socket_StreamBase::writeFull` and `readFull`, and
the templates over them (`socket_streambasewriter.h`, `socket_streambasereader.h`). -/

set_option autoImplicit false

namespace Mantids.Network

open Memory

/-! ## Integers -/

/-- The widths of the template parameter. -/
inductive Width where
  | u8
  | u16
  | u32
  | u64
  deriving DecidableEq

namespace Width

def bytes : Width → Nat
  | u8 => 1
  | u16 => 2
  | u32 => 4
  | u64 => 8

/-- How many values there are. -/
def values (T : Width) : Nat := 2 ^ (8 * T.bytes)

/-- `numeric_limits<T>::max()`. -/
def max (T : Width) : Nat := T.values - 1

/-- Narrower sums are of `int`. -/
def sizePlusOne (T : Width) (size : Nat) : Nat :=
  match T with
  | u8 | u16 => size + 1
  | u32 | u64 => (size + 1) % T.values

end Width

/-- `htons`, `htonl` and `htonll`, as they lie in memory. -/
def networkOrder : (bytes value : Nat) → Bytes
  | 0, _ => []
  | bytes + 1, value => UInt8.ofNat (value / 256 ^ bytes) :: networkOrder bytes value

def hostOrder (buf : Bytes) : Nat := buf.foldl (fun value byte => value * 256 + byte.toNat) 0

/-! ## The socket -/

/-- Any number of bytes for each call of the system. -/
abbrev Fragmentation := Nat → Nat

/-- A call moves at least one byte of those it is given. -/
def Fragmentation.moved (fragmentation : Fragmentation) (call len : Nat) : Nat := fragmentation call % len + 1

structure Sender where
  sent : Bytes := []
  calls : Nat := 0
  shut : Bool := false

structure Receiver where
  left : Bytes
  calls : Nat := 0
  shut : Bool := false

section
variable (fragmentation : Fragmentation)

namespace Sender

def shutdownSocket (s : Sender) : Sender := { s with shut := true }

/-- Nothing for an error. -/
def partialWrite (s : Sender) (data : Bytes) : Option Nat × Sender :=
  if s.shut then (none, s)
  else
    let sentBytes := fragmentation.moved s.calls data.length
    (some sentBytes, { s with sent := s.sent ++ data.take sentBytes, calls := s.calls + 1 })

/-- Each turn sends at least one byte, so there are turns enough. -/
def writeLoop : (turns : Nat) → Sender → Bytes → Bool × Sender
  | _, s, [] => (true, s)
  | 0, s, _ :: _ => (false, s)
  | turns + 1, s, byte :: rest =>
    match s.partialWrite fragmentation ((byte :: rest).take 4096) with
    | (none, s) | (some 0, s) => (false, s.shutdownSocket)
    | (some sentBytes, s) => writeLoop turns s ((byte :: rest).drop sentBytes)

def writeFull (s : Sender) (data : Bytes) : Bool × Sender := writeLoop fragmentation data.length s data

/-- `writeDeSync` after a failure. -/
def deSync : Bool × Sender → Bool × Sender
  | (true, s) => (true, s)
  | (false, s) => (false, s.shutdownSocket)

def writeU (T : Width) (s : Sender) (c : Nat) : Bool × Sender :=
  deSync (s.writeFull fragmentation (networkOrder T.bytes c))

def writeBlockEx (T : Width) (s : Sender) (data : Bytes) (datalen : Nat) : Bool × Sender :=
  match s.writeFull fragmentation (networkOrder T.bytes datalen) with
  | (false, s) => (false, s)
  | (true, s) => if datalen = 0 then (true, s) else deSync (s.writeFull fragmentation (data.take datalen))

/-- The size is cut to the width of the block's. -/
def writeStringEx (T : Width) (s : Sender) (str : Bytes) (maxSize : Nat) : Bool × Sender :=
  if maxSize < str.length then (false, s.shutdownSocket)
  else s.writeBlockEx fragmentation T str (str.length % T.values)

end Sender

namespace Receiver

def shutdownSocket (r : Receiver) : Receiver := { r with shut := true }

/-- Nothing for an error, no bytes for a closed connection. -/
def partialRead (r : Receiver) (len : Nat) : Option Bytes × Receiver :=
  if r.shut then (none, r)
  else
    let received := r.left.take (fragmentation.moved r.calls len)
    (some received, { r with left := r.left.drop received.length, calls := r.calls + 1 })

/-- Each turn but the last one reads at least one byte, so there are turns enough. -/
def readLoop (expectedDataBytesCount : Nat) : (turns : Nat) → Receiver → (data : Bytes) → Bool × Bytes × Receiver
  | 0, r, data => (decide (data.length = expectedDataBytesCount), data, r)
  | turns + 1, r, data =>
    if data.length < expectedDataBytesCount then
      match r.partialRead fragmentation (min 4096 (expectedDataBytesCount - data.length)) with
      | (none, r) | (some [], r) => (false, data, r)
      | (some received, r) => readLoop expectedDataBytesCount turns r (data ++ received)
    else (true, data, r)

/-- With the bytes received. -/
def readFull (r : Receiver) (expectedDataBytesCount : Nat) : Bool × Bytes × Receiver :=
  readLoop fragmentation expectedDataBytesCount expectedDataBytesCount r []

/-- Nothing if `readOK` is false. -/
def readU (T : Width) (r : Receiver) : Option Nat × Receiver :=
  match r.readFull fragmentation T.bytes with
  | (true, buf, r) => (some (hostOrder buf), r)
  | (false, _, r) => (none, r.shutdownSocket)

/-- The block, nothing where it fails. Without room for a byte it is not looked at. -/
def readBlockEx (T : Width) (r : Receiver) (datalen : Nat) (mustReceiveFullDataLen : Bool) : Option Bytes × Receiver :=
  if datalen = 0 then (some [], r)
  else
    match r.readU fragmentation T with
    | (none, r) => (none, r)
    | (some len, r) =>
      if (len ≠ datalen ∧ mustReceiveFullDataLen) ∨ datalen < len then (none, r.shutdownSocket)
      else if len = 0 then (some [], r)
      else
        match r.readFull fragmentation len with
        | (true, data, r) => (some data, r)
        | (false, _, r) => (none, r)

/-- `overflows` is a block that is longer than the memory it is read to. -/
inductive Allocated where
  | block (data : Bytes)
  | failed
  | overflows
  deriving DecidableEq

/-- Without a maximum it is the one before the largest. -/
def readBlockWAllocEx (T : Width) (r : Receiver) (datalen : Option Nat) : Allocated × Receiver :=
  match r.readU fragmentation T with
  | (none, r) => (.failed, r)
  | (some expectedBytesCount, r) =>
    if datalen.getD (T.max - 1) < expectedBytesCount then (.failed, r.shutdownSocket)
    else if expectedBytesCount = 0 then (.block [], r)
    else if T.sizePlusOne expectedBytesCount < expectedBytesCount then (.overflows, r)
    else
      match r.readFull fragmentation expectedBytesCount with
      | (true, data, r) => (.block data, r)
      | (false, _, r) => (.failed, r.shutdownSocket)

/-- A string is an allocated block. -/
def readStringEx (T : Width) (r : Receiver) (maxLenght : Nat) : Allocated × Receiver :=
  r.readBlockWAllocEx fragmentation T (some maxLenght)

end Receiver

end

end Mantids.Network
