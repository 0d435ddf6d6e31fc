import Mantids.Protocols.RequestLine

/-! Multipart messages (`mime_message.cpp`, `mime_partmessage.cpp`) with their four sub parsers:
what is streamed of a message, and the parser that reads one. -/

set_option autoImplicit false

namespace Mantids.MIME

open Memory Memory.Streams Library

def crlf : Bytes := [13, 10]

def dashes : Bytes := [45, 45]

def ascii (text : String) : Bytes := text.toList.map fun letter => UInt8.ofNat letter.toNat

/-! ## Headers -/

/-- Options are told apart by their allocation, as pointers tell them apart. What
`parseSubValues` makes of `origValue` besides storing it is left out. -/
structure HeaderOption where
  allocation : Nat
  origName : Bytes
  origValue : Bytes
  deriving DecidableEq

def HeaderOption.getString (option : HeaderOption) : Bytes := option.origName ++ [58, 32] ++ option.origValue

structure SubHeader where
  headers : Multimap Bytes HeaderOption
  lastOpt : Option Nat
  allocated : Nat
  maxOptions : Nat

namespace SubHeader

def new (maxOptions : Nat) : SubHeader := ⟨.empty, none, 0, maxOptions⟩

/-- State 0 adds an option, state 1 gives the last one another value. -/
def add (header : SubHeader) (optionName optionValue : Bytes) (state : Nat) : Bool × SubHeader :=
  if state = 0 then
    if header.headers.entries.length = header.maxOptions then (false, header)
    else
      let optP := ⟨header.allocated, optionName, optionValue⟩
      (true,
        { header with
          headers := header.headers.insert (HTTP.toUpper optionName) optP
          lastOpt := some header.allocated
          allocated := header.allocated + 1 })
  else
    match header.lastOpt with
    | some lastOpt =>
      if state = 1 then
        (true,
          { header with
            headers := header.headers.map fun option =>
              if option.allocation = lastOpt then { option with origValue := optionValue } else option })
      else (true, header)
    | none => (true, header)

/-- The value is what a C string has of the rest of the line, and a line without a separator is passed over. -/
def parseOptionValue (header : SubHeader) (optionValue : Bytes) : SubHeader :=
  if optionValue.head? = some 32 ∨ optionValue.head? = some 9 then (header.add [] optionValue 1).2
  else
    match occurrence [58, 32] optionValue with
    | some found => (header.add (optionValue.take found) (HTTP.cString (optionValue.drop (found + 2))) 0).2
    | none => header

def stream (header : SubHeader) : Bytes :=
  header.headers.entries.flatMap (fun entry => entry.2.getString ++ crlf) ++ crlf

end SubHeader

/-! ## Parts -/

/-- The container of the content is taken for its content. -/
structure PartMessage where
  header : SubHeader
  content : Bytes

/-- The content ends with the boundary. -/
def PartMessage.stream (part : PartMessage) (boundary : Bytes) : Bytes :=
  part.header.stream ++ (part.content ++ crlf ++ dashes ++ boundary)

inductive VarStat where
  | firstBoundary
  | endpoint
  | headers
  | content
  deriving DecidableEq, Repr

inductive EndPStat where
  | statUninitialized
  | statContinue
  | statEnd
  | statError
  deriving DecidableEq, Repr

/-! ## Messages -/

/-- The index of the parts by name is left out: names are options of a header. `parsed`
counts the calls of `parse()`. -/
structure Message where
  multiPartBoundary : Bytes
  currentState : VarStat
  currentPart : PartMessage
  allParts : List PartMessage
  subEndPBoundary : EndPStat
  parsed : Nat

namespace Message

def maxNumberOfParts : Nat := 128

def maxHeaderOptionsCount : Nat := 64

theorem headerLine_word : 8 * 1024 < 2 ^ 64 := by decide

def maxHeaderOptionSize : Fin (2 ^ 64) := ⟨8 * 1024, headerLine_word⟩

def maxVarContentSize : Nat := 32 * 1024

def newPart : PartMessage := ⟨.new maxHeaderOptionsCount, []⟩

def new (boundary : Bytes) : Message := ⟨boundary, .firstBoundary, newPart, [], .statUninitialized, 0⟩

def addMultiPartMessage (message : Message) (part : PartMessage) : Message :=
  { message with allParts := message.allParts ++ [part] }

def renewCurrentPart (message : Message) : Message := { message with currentPart := newPart }

/-- The value is kept in chunks, as many as a container takes. -/
def addStringVar (message : Message) (varName varValue : Bytes) : Bool × Message :=
  let disposition := message.currentPart.header.add (ascii "Content-Disposition") (ascii "form-data") 0
  let named := disposition.2.add (ascii "name") varName 0
  if disposition.1 = false then
    (false, { message with currentPart := { message.currentPart with header := disposition.2 } })
  else if named.1 = false then (false, { message with currentPart := { message.currentPart with header := named.2 } })
  else (true, (message.addMultiPartMessage ⟨named.2, (BChunks.chunksOf varValue).flatten⟩).renewCurrentPart)

/-- The boundary stands before the first part, and after each part once more than its content has it. -/
def streamTo (message : Message) : Bytes :=
  dashes ++ message.multiPartBoundary ++
    message.allParts.flatMap (fun part =>
      crlf ++ part.stream message.multiPartBoundary ++ (dashes ++ message.multiPartBoundary)) ++
    (dashes ++ crlf)

/-! ## The parser -/

def firstBoundarySettings (boundary : Bytes) : Settings where
  parseMode := .delimiter
  parseDelimiter := dashes ++ boundary ++ crlf
  parseMultiDelimiter := []
  parseDataTargetSize := ⟨(boundary.length + 512) % 2 ^ 64, Nat.mod_lt _ (by decide)⟩

def headerSettings : Settings :=
  { Settings.new with parseDelimiter := crlf, parseDataTargetSize := maxHeaderOptionSize }

def contentSettings (boundary : Bytes) : Settings where
  parseMode := .directDelimiter
  parseDelimiter := crlf ++ dashes ++ boundary
  parseMultiDelimiter := []
  parseDataTargetSize := ⟨(maxVarContentSize + boundary.length + 4) % 2 ^ 64, Nat.mod_lt _ (by decide)⟩

def endPBoundarySettings : Settings where
  parseMode := .multiDelimiter
  parseDelimiter := Settings.new.parseDelimiter
  parseMultiDelimiter := [dashes ++ crlf, crlf]
  parseDataTargetSize := ⟨16, by decide⟩

/-- `parse()` of the sub parser that the state is about. -/
def parse : Parse Message := fun message settings presented =>
  let message := { message with parsed := message.parsed + 1 }
  match presented with
  | .element parsedBuffer delimiterFound =>
    match message.currentState with
    | .firstBoundary => (.gotoNextSubParser, settings, message)
    | .headers =>
      if parsedBuffer = [] then (.gotoNextSubParser, settings, message)
      else
        let header := message.currentPart.header.parseOptionValue parsedBuffer
        (.getMoreData, settings, { message with currentPart := { message.currentPart with header := header } })
    | .content =>
      let content := message.currentPart.content ++ parsedBuffer
      (if delimiterFound.getD [] = [] then .getMoreData else .gotoNextSubParser, settings,
        { message with currentPart := { message.currentPart with content := content } })
    | .endpoint =>
      if delimiterFound = some (dashes ++ crlf) then
        (.gotoNextSubParser, settings, { message with subEndPBoundary := .statEnd })
      else if delimiterFound = some crlf then
        (.gotoNextSubParser, settings, { message with subEndPBoundary := .statContinue })
      else (.error, settings, { message with subEndPBoundary := .statError })
  | .direct _ _ => (.getMoreData, settings, message)

/-- The parts end where there are as many as there may be, or with the last boundary. -/
def changeToNextParser (message : Message) : Option (Option Settings × Message) :=
  match message.currentState with
  | .firstBoundary => some (some headerSettings, { message with currentState := .headers })
  | .endpoint =>
    if message.subEndPBoundary = .statContinue then
      some (some headerSettings, { message with currentState := .headers })
    else some (none, message)
  | .headers => some (some (contentSettings message.multiPartBoundary), { message with currentState := .content })
  | .content =>
    let message := (message.addMultiPartMessage message.currentPart).renewCurrentPart
    if message.allParts.length = maxNumberOfParts then some (none, message)
    else
      some (some endPBoundarySettings,
        { message with currentState := .endpoint, subEndPBoundary := .statUninitialized })

/-- `malloc` finds other memory at each call of `parse()`. -/
def protocol (memory : Nat → Fresh) : Protocol Message where
  parse := parse
  changeToNextParser := changeToNextParser
  fresh := fun message => memory message.parsed
  maxTTL := 4096

def parser (boundary : Bytes) : Parser Message := ⟨some (.new (firstBoundarySettings boundary)), .new boundary⟩

end Message

end Mantids.MIME
