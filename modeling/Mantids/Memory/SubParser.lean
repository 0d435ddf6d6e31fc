import Mantids.Memory.Access
import Mantids.Memory.Find

/-! Sub parsers (`subparser.cpp`): they collect written bytes until their mode has an
element to present to `parse()`. -/

set_option autoImplicit false

namespace Mantids.Memory.Streams

inductive ParseStatus where
  | error
  | getMoreData
  | gotoNextSubParser
  deriving DecidableEq, Repr

inductive ParseMode where
  | delimiter
  | size
  | validator
  | connectionEnd
  | direct
  | directDelimiter
  | multiDelimiter
  | freeParser
  deriving DecidableEq, Repr

/-- What `parse()` may set. -/
structure Settings where
  parseMode : ParseMode
  parseDelimiter : Bytes
  parseMultiDelimiter : List Bytes
  parseDataTargetSize : Fin (2 ^ 64)
  deriving DecidableEq, Repr

namespace Settings

def setParseMode (settings : Settings) (value : ParseMode) : Settings :=
  { settings with
    parseMode := value
    parseDataTargetSize := if value = .direct then ⟨2 ^ 64 - 1, maxSize_word⟩ else settings.parseDataTargetSize }

/-- The constructor's settings. -/
def new : Settings := ⟨.delimiter, [13, 10], [], ⟨2 ^ 64 - 1, maxSize_word⟩⟩

end Settings

/-- What `parse()` is called on. An element comes with what the mode has written to
`delimiterFound`; direct data comes with what `getLeftToparse` answers. -/
inductive Presented where
  | element (parsedBuffer : Bytes) (delimiterFound : Option Bytes)
  | direct (parsedBuffer : Bytes) (leftToParse : Nat)
  deriving DecidableEq, Repr

/-- What memory fresh from `malloc` holds. -/
abbrev Fresh := (size : Nat) → Vector UInt8 size

/-- Where a delimiter begins, how long it is and what its mode reports about it. -/
structure Found where
  pos : Nat
  length : Nat
  delimiterFound : Option Bytes
  deriving DecidableEq, Repr

structure SubParser where
  parseMode : ParseMode
  parseDelimiter : Bytes
  parseMultiDelimiter : List Bytes
  unparsedBuffer : BChunks
  streamEnded : Bool

namespace SubParser

def settings (p : SubParser) : Settings :=
  ⟨p.parseMode, p.parseDelimiter, p.parseMultiDelimiter,
    ⟨p.unparsedBuffer.limits.maxSize, p.unparsedBuffer.limits.size_word⟩⟩

def configure (p : SubParser) (settings : Settings) : SubParser :=
  { p with
    parseMode := settings.parseMode
    parseDelimiter := settings.parseDelimiter
    parseMultiDelimiter := settings.parseMultiDelimiter
    unparsedBuffer := p.unparsedBuffer.setMaxSize settings.parseDataTargetSize }

def new (settings : Settings) : SubParser :=
  configure ⟨.delimiter, [], [], .empty .default, false⟩ settings

/-- The bytes that are waiting for the rest of their element. -/
def pending (p : SubParser) : Bytes := content p.unparsedBuffer.chunksVector

def clear (p : SubParser) : SubParser := { p with unparsedBuffer := p.unparsedBuffer.clear }

/-- What of a write fits in the buffer; a full buffer takes the write as it is. -/
def stick (p : SubParser) (buf : Bytes) : Bytes :=
  if p.unparsedBuffer.getSizeLeft < buf.length ∧ p.unparsedBuffer.getSizeLeft ≠ 0 then
    buf.take p.unparsedBuffer.getSizeLeft
  else buf

/-- The source throws where this would go below zero. -/
def reduceMaxSizeBy (p : SubParser) (value : Nat) : SubParser :=
  let limits := p.unparsedBuffer.limits
  let maxSize : Fin (2 ^ 64) := ⟨limits.maxSize - value, Nat.lt_of_le_of_lt (Nat.sub_le ..) limits.size_word⟩
  { p with unparsedBuffer := p.unparsedBuffer.setMaxSize maxSize }

/-- Whether the comparison of the last `v` bytes with the boundary finds no difference.
Bytes that the container does not copy out are compared as `malloc` has left them. -/
def lastBytesMatch (p : SubParser) (fresh : Fresh) (boundary : Bytes) (v : Nat) : Bool :=
  let copied := (p.unparsedBuffer.copyOut v (p.unparsedBuffer.size - v)).getD []
  copied ++ (fresh v).toList.drop copied.length = boundary.take v

/-- The loop of `getLastBytesInCommon`, which is never called with an empty boundary:
that one is found at once. -/
def lastBytesLoop (p : SubParser) (fresh : Fresh) (boundary : Bytes) : (v : Nat) → Nat
  | 0 => 0
  | v + 1 => if p.lastBytesMatch fresh boundary (v + 1) then v + 1 else lastBytesLoop p fresh boundary v

def getLastBytesInCommon (p : SubParser) (fresh : Fresh) (boundary : Bytes) : Nat :=
  lastBytesLoop p fresh boundary
    (if boundary.length - 1 < p.unparsedBuffer.size then boundary.length - 1 else p.unparsedBuffer.size)

end SubParser

/-- One `writeIntoParser`: the bytes taken (`none` on failure), the status, and the
calls of `parse()` on the way. -/
structure Written (σ : Type) where
  taken : Option Nat
  status : ParseStatus
  subParser : SubParser
  user : σ
  presented : List Presented

/-- `parse()` of the current sub parser, on a state of its own. -/
abbrev Parse (σ : Type) := σ → Settings → Presented → ParseStatus × Settings × σ

/-- `(pos - prevSize) + length` on 64-bit numbers. -/
def bytesToDisplace (pos length prevSize : Nat) : Nat := (pos + length + 2 ^ 64 - prevSize) % 2 ^ 64

theorem bytesToDisplace_add {pos length prevSize : Nat} (le : prevSize ≤ pos + length)
    (word : pos + length < 2 ^ 64) : prevSize + bytesToDisplace pos length prevSize = pos + length := by
  have less : pos + length + 2 ^ 64 - prevSize = (pos + length - prevSize) + 2 ^ 64 := by omega
  rw [bytesToDisplace, less, Nat.add_mod_right, Nat.mod_eq_of_lt (by omega)]
  omega

section
variable {σ : Type} (parse : Parse σ) (user : σ)

/-- The failure of a mode that clears its buffer. -/
def failed (p : SubParser) : Written σ := ⟨none, .getMoreData, p, user, []⟩

/-- `parse()` is called, and what it has been called on is cleared. -/
def present (p : SubParser) (presented : Presented) (taken : Nat) : Written σ :=
  let (status, settings, user) := parse user p.settings presented
  ⟨some taken, status, (p.configure settings).clear, user, [presented]⟩

/-- The two modes that wait for a delimiter: `find` looks for it in the buffer, and
`atEnd` is what the mode has for `delimiterFound` when the stream ends without one. -/
def parseUpTo (find : BChunks → Option Found) (atEnd : Option Bytes) (p : SubParser) (buf : Bytes) : Written σ :=
  let prevSize := p.unparsedBuffer.size
  let p := if buf = [] then { p with streamEnded := true } else p
  let buf := p.stick buf
  let (bytesAppended, unparsedBuffer) := p.unparsedBuffer.append buf
  if buf ≠ [] ∧ (bytesAppended.2 = 0 ∨ bytesAppended.1 = false) then
    failed user { p with unparsedBuffer := unparsedBuffer.clear }
  else
    let p := { p with unparsedBuffer := unparsedBuffer }
    match find p.unparsedBuffer with
    | some found =>
      present parse user p (.element (p.pending.take found.pos) found.delimiterFound)
        (bytesToDisplace found.pos found.length prevSize)
    | none =>
      if p.streamEnded then present parse user p (.element p.pending atEnd) bytesAppended.2
      else ⟨some bytesAppended.2, .getMoreData, p, user, []⟩

def parseByDelimiter (p : SubParser) (buf : Bytes) : Written σ :=
  parseUpTo parse user
    (fun c => (c.find p.parseDelimiter).map fun pos => ⟨pos, p.parseDelimiter.length, none⟩) none p buf

def parseByMultiDelimiter (p : SubParser) (buf : Bytes) : Written σ :=
  parseUpTo parse user
    (fun c => (c.findAny p.parseMultiDelimiter).map fun (pos, delimiterFound) =>
      ⟨pos, delimiterFound.length, some delimiterFound⟩) (some []) p buf

def parseBySize (p : SubParser) (buf : Bytes) : Written σ :=
  if buf = [] then ⟨some 0, .gotoNextSubParser, { p with streamEnded := true }.clear, user, []⟩
  else
    let (appendResult, unparsedBuffer) := p.unparsedBuffer.append (buf.take p.unparsedBuffer.getSizeLeft)
    let p := { p with unparsedBuffer := unparsedBuffer }
    if appendResult.1 = false then failed user p
    else if p.unparsedBuffer.getSizeLeft = 0 then
      present parse user p (.element p.pending none) appendResult.2
    else ⟨some appendResult.2, .getMoreData, p, user, []⟩

def parseByConnectionEnd (p : SubParser) (buf : Bytes) : Written σ :=
  let buf := p.stick buf
  let (appendedBytes, unparsedBuffer) := p.unparsedBuffer.append buf
  let p := { p with unparsedBuffer := unparsedBuffer }
  if appendedBytes.1 = false ∨ appendedBytes.2 ≠ buf.length then failed user p
  else if buf = [] then
    -- Only the reference is cleared here, so the bytes stay in the buffer.
    let (status, settings, user) := parse user p.settings (.element p.pending none)
    ⟨some 0, status, p.configure settings, user, [.element p.pending none]⟩
  else ⟨some buf.length, .getMoreData, p, user, []⟩

/-- What is presented counts against the target size. -/
def parseDirect (p : SubParser) (buf : Bytes) : Written σ :=
  let (copiedDirect, unparsedBuffer) := p.unparsedBuffer.append (p.stick buf)
  let p := { p with unparsedBuffer := unparsedBuffer }
  if copiedDirect.1 = false then failed user p
  else
    let written := present parse user p (.direct p.pending p.unparsedBuffer.getSizeLeft) copiedDirect.2
    { written with subParser := written.subParser.reduceMaxSizeBy p.unparsedBuffer.size }

/-- What is handed over without a delimiter found leaves the bytes that may begin one. -/
def parseDirectDelimiter (fresh : Fresh) (p : SubParser) (buf : Bytes) : Written σ :=
  let prevSize := p.unparsedBuffer.size
  let buf := p.stick buf
  if buf = [] then failed user p
  else
    let (copiedDirect, unparsedBuffer) := p.unparsedBuffer.append buf
    let p := { p with unparsedBuffer := unparsedBuffer }
    if copiedDirect.1 = false then failed user p
    else
      match p.unparsedBuffer.find p.parseDelimiter with
      | none =>
        let bytesOfPossibleDelim := p.getLastBytesInCommon fresh p.parseDelimiter
        let safe := p.unparsedBuffer.size - bytesOfPossibleDelim
        let presented := Presented.element (p.pending.take safe) (some [])
        let (status, settings, user) := parse user p.settings presented
        let p := p.configure settings
        ⟨some copiedDirect.2, status,
          if bytesOfPossibleDelim = 0 then p.clear
          else { p with unparsedBuffer := (p.unparsedBuffer.displace safe).2 }, user, [presented]⟩
      | some pos =>
        present parse user p (.element (p.pending.take pos) (some p.parseDelimiter))
          (bytesToDisplace pos p.parseDelimiter.length prevSize)

def writeIntoParser (fresh : Fresh) (p : SubParser) (buf : Bytes) : Written σ :=
  let p := if buf = [] then { p with streamEnded := true } else p
  match p.parseMode with
  | .delimiter => parseByDelimiter parse user p buf
  | .size => parseBySize parse user p buf
  | .connectionEnd => parseByConnectionEnd parse user p buf
  | .multiDelimiter => parseByMultiDelimiter parse user p buf
  | .direct => parseDirect parse user p buf
  | .directDelimiter => parseDirectDelimiter parse user fresh p buf
  | .validator => failed user p
  | .freeParser => failed user p

end

end Mantids.Memory.Streams
