import Mantids.Memory.DirectDelimiter
import Mantids.Protocols.RequestLine

/-! The content of a message (`common_content.cpp`): the filter that streams a container in
chunks (`common_content_chunked_subparser.cpp`, `b_base.cpp`), and what parses one. -/

set_option autoImplicit false

namespace Mantids.HTTP

open Memory Memory.Streams

/-! ## Numbers -/

/-- `%X`. -/
def hexadecimal (value : Nat) : Bytes :=
  if value = 0 then [48] else (Nat.digits 16 value).reverse.map fun digit => Encoders.URL.hexDigit (UInt8.ofNat digit)

/-- The digits of `strtoul` with base 16. -/
def hexDigitsValue : (value : Nat) → Bytes → Nat
  | value, [] => value
  | value, byte :: rest =>
    if Decoders.URL.isxdigit byte then hexDigitsValue (value * 16 + (Decoders.URL.hexValue byte).toNat) rest else value

/-- A prefix counts where a digit follows it. -/
def withoutPrefix : Bytes → Bytes
  | 48 :: mark :: digit :: rest =>
    if (mark = 120 ∨ mark = 88) ∧ Decoders.URL.isxdigit digit then digit :: rest else 48 :: mark :: digit :: rest
  | digits => digits

/-- `strtoul` with base 16, on 64 bits. -/
def strtoulHexadecimal (text : Bytes) : Nat :=
  match (cString text).dropWhile isSpace with
  | 45 :: digits =>
    if hexDigitsValue 0 (withoutPrefix digits) < 2 ^ 64 then (2 ^ 64 - hexDigitsValue 0 (withoutPrefix digits)) % 2 ^ 64
    else 2 ^ 64 - 1
  | 43 :: digits => min (hexDigitsValue 0 (withoutPrefix digits)) (2 ^ 64 - 1)
  | digits => min (hexDigitsValue 0 (withoutPrefix digits)) (2 ^ 64 - 1)

/-! ## Streaming -/

section
variable {σ : Type} (write : σ → Bytes → Nat × σ)

/-- `writeFullStream`, into what takes every write and reports so many bytes of it. A write
that reports none would be repeated for ever; here it counts as one of `turns`. -/
def writeFullStream (buf : Bytes) : (turns bytesWritten : Nat) → σ → Nat × σ
  | 0, bytesWritten, out => (bytesWritten, out)
  | turns + 1, bytesWritten, out =>
    if bytesWritten < buf.length then
      let (written, out) := write out (buf.drop bytesWritten)
      writeFullStream buf turns (bytesWritten + written) out
    else (bytesWritten, out)

/-- The copy ends where other than the chunk's bytes are reported. -/
def copyToSOUsingCleanVector : List Bytes → σ → σ
  | [], out => out
  | chunk :: rest, out =>
    let (bytesWritten, out) := writeFullStream write chunk chunk.length 0 out
    if bytesWritten ≠ chunk.length then out else copyToSOUsingCleanVector rest out

end

/-- `B_Chunks::streamTo`. -/
def streamTo {σ : Type} (container : BChunks) (write : σ → Bytes → Nat × σ) (out : σ) : σ :=
  if container.size = 0 then out
  else copyToSOUsingCleanVector write (BChunks.copyChunks container.chunksVector container.size) out

/-- Between the stream of a container and what is written upstream. -/
structure ContentChunkedSubParser where
  dst : Bytes
  pos : Nat

namespace ContentChunkedSubParser

/-- The header of the chunk counts as written, and its number is one of 32 bits. -/
def write (retr : ContentChunkedSubParser) (buf : Bytes) : Nat × ContentChunkedSubParser :=
  let strhex := (if retr.pos = 0 then [] else [13, 10]) ++ hexadecimal (buf.length % 2 ^ 32) ++ [13, 10]
  (strhex.length + buf.length, ⟨retr.dst ++ (strhex ++ buf), (retr.pos + buf.length) % 2 ^ 64⟩)

def endBuffer (retr : ContentChunkedSubParser) : Bytes :=
  retr.dst ++ if retr.pos = 0 then [48, 13, 10, 13, 10] else [13, 10, 48, 13, 10, 13, 10]

end ContentChunkedSubParser

inductive TransmitionMode where
  | transmitModeChunks
  | transmitModeContentLength
  | transmitModeConnectionClose
  deriving DecidableEq, Repr

/-- What `stream` writes of a container. -/
def streamContent (transmitionMode : TransmitionMode) (container : BChunks) : Bytes :=
  match transmitionMode with
  | .transmitModeChunks => (streamTo container ContentChunkedSubParser.write ⟨[], 0⟩).endBuffer
  | .transmitModeContentLength | .transmitModeConnectionClose =>
    streamTo container (fun out buf => (buf.length, out ++ buf)) []

/-! ## Parsing -/

inductive ProcessingMode where
  | procModeChunkSize
  | procModeChunkData
  | procModeChunkCRLF
  | procModeContentLength
  | procModeConnectionClose
  deriving DecidableEq, Repr

/-- The container that is written to is taken for its content. -/
structure Content where
  currentMode : ProcessingMode
  outStream : Bytes
  deriving DecidableEq

namespace Content

theorem endLine_word : 1024 < 2 ^ 64 := by decide

/-- `securityMaxPostDataSize` as the constructor sets it. -/
def securityMaxPostDataSize : Fin (2 ^ 64) := ⟨17 * 1024 * 1024, by decide⟩

def securityMaxHttpChunkSize : Nat := 16 * 1024 * 1024

def setTransmitionMode (content : Content) (settings : Settings) : TransmitionMode → Settings × Content
  | .transmitModeConnectionClose =>
    ({ settings.setParseMode .direct with parseDataTargetSize := securityMaxPostDataSize },
      { content with currentMode := .procModeConnectionClose })
  | .transmitModeChunks =>
    ({ settings.setParseMode .delimiter with parseDelimiter := [13, 10], parseDataTargetSize := ⟨64, by decide⟩ },
      { content with currentMode := .procModeChunkSize })
  | .transmitModeContentLength => (settings.setParseMode .direct, { content with currentMode := .procModeContentLength })

/-- The largest number of 32 bits stands for none. -/
def parseHttpChunkSize (parsedBuffer : Bytes) : Nat :=
  let parsedSize := strtoulHexadecimal parsedBuffer % 2 ^ 32
  if parsedSize = 2 ^ 32 - 1 ∨ securityMaxHttpChunkSize < parsedSize then 2 ^ 32 - 1 else parsedSize

def leftToParse : Presented → Nat
  | .direct _ leftToParse => leftToParse
  | .element _ _ => 0

def parse : Parse Content := fun content settings presented =>
  match content.currentMode with
  | .procModeChunkSize =>
    let targetChunkSize := parseHttpChunkSize presented.parsedBuffer
    if targetChunkSize = 2 ^ 32 - 1 then (.error, settings, content)
    else if 0 < targetChunkSize then
      (.getMoreData,
        { settings.setParseMode .size with
          parseDataTargetSize := ⟨targetChunkSize % 2 ^ 64, Nat.mod_lt _ (by decide)⟩ },
        { content with currentMode := .procModeChunkData })
    else (.gotoNextSubParser, settings, content)
  | .procModeChunkData =>
    (.getMoreData, { settings.setParseMode .size with parseDataTargetSize := ⟨2, by decide⟩ },
      { content with currentMode := .procModeChunkCRLF, outStream := content.outStream ++ presented.parsedBuffer })
  | .procModeChunkCRLF =>
    (.getMoreData,
      { settings.setParseMode .delimiter with parseDelimiter := [13, 10], parseDataTargetSize := ⟨1024, endLine_word⟩ },
      { content with currentMode := .procModeChunkSize })
  | .procModeContentLength =>
    (if 0 < leftToParse presented then .getMoreData else .gotoNextSubParser, settings,
      { content with outStream := content.outStream ++ presented.parsedBuffer })
  | .procModeConnectionClose =>
    (if presented.parsedBuffer = [] then .gotoNextSubParser else .getMoreData, settings,
      { content with outStream := content.outStream ++ presented.parsedBuffer })

/-- A parser for one content. -/
def protocol : Protocol Content where
  parse := parse
  changeToNextParser := fun content => some (none, content)
  fresh := fun _ size => Vector.replicate size 0
  maxTTL := 4096

end Content

end Mantids.HTTP
