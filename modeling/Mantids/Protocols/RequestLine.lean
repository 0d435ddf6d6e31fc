import Mantids.Protocols.UrlVars
import Mathlib

/-! The request line (`req_requestline.cpp`, `common_version.cpp`): what is streamed of it, and
what is parsed of a line. -/

set_option autoImplicit false

namespace Mantids.HTTP

open Memory Memory.Streams Library

/-! ## Texts -/

/-- `boost::split` with `token_compress_on`: bytes that separate count as one where they follow each other. -/
def split (isAnyOf : UInt8 → Bool) : Bytes → List Bytes
  | [] => [[]]
  | byte :: rest =>
    if isAnyOf byte then (if rest.head?.any isAnyOf then split isAnyOf rest else [] :: split isAnyOf rest)
    else
      match split isAnyOf rest with
      | first :: more => (byte :: first) :: more
      | [] => [[byte]]

/-- What a C string ends at. -/
def cString (text : Bytes) : Bytes := text.takeWhile (· ≠ 0)

def isSpace (byte : UInt8) : Bool := byte = 32 || (9 ≤ byte && byte ≤ 13)

/-- The digits of `strtoul` with base 10. -/
def digitsValue : (value : Nat) → Bytes → Nat
  | value, [] => value
  | value, byte :: rest =>
    if 48 ≤ byte && byte ≤ 57 then digitsValue (value * 10 + (byte - 48).toNat) rest else value

/-- `strtoul` with base 10, on 64 bits: it stays at the greatest number, and negates within the bits. -/
def strtoul (text : Bytes) : Nat :=
  match text.dropWhile isSpace with
  | 45 :: digits =>
    if digitsValue 0 digits < 2 ^ 64 then (2 ^ 64 - digitsValue 0 digits) % 2 ^ 64 else 2 ^ 64 - 1
  | 43 :: digits => min (digitsValue 0 digits) (2 ^ 64 - 1)
  | digits => min (digitsValue 0 digits) (2 ^ 64 - 1)

/-- `PRIu16`. -/
def decimal (value : UInt16) : Bytes :=
  if value = 0 then [48] else (Nat.digits 10 value.toNat).reverse.map fun digit => 48 + UInt8.ofNat digit

/-! ## The version -/

structure Version where
  versionMajor : UInt16
  versionMinor : UInt16
  deriving DecidableEq

namespace Version

def new : Version := ⟨1, 1⟩

/-- What is no version counts as 1.0. -/
def parseVersion (version : Bytes) : Version :=
  match split (· = 47) version with
  | [_, numbers] =>
    match split (· = 46) numbers with
    | [versionMajor, versionMinor] => ⟨UInt16.ofNat (strtoul versionMajor), UInt16.ofNat (strtoul versionMinor)⟩
    | _ => ⟨1, 0⟩
  | _ => ⟨1, 0⟩

def getHTTPVersionString (version : Version) : Bytes :=
  [72, 84, 84, 80, 47] ++ decimal version.versionMajor ++ 46 :: decimal version.versionMinor

end Version

/-! ## The line -/

/-- The variables are containers where the line is streamed, and come out of a parser where it is parsed. -/
structure RequestLine (G : Type) where
  requestMethod : Bytes
  requestURI : Bytes
  requestURIParameters : Bytes
  httpVersion : Version
  getVars : G

/-- The parser of the variables in a request line, and whether a write to it has failed. -/
structure GetVars where
  parser : Parser UrlVars
  failedWriteState : Bool

namespace RequestLine

abbrev questionMark : UInt8 := 63

/-- Of `is_any_of("\t ")`. -/
def isBlank (byte : UInt8) : Bool := byte = 9 || byte = 32

def crlf : Bytes := [13, 10]

def stream (line : RequestLine (Multimap Bytes (List Bytes))) : Bytes :=
  line.requestMethod ++ 32 :: line.requestURI ++
    (if line.getVars.entries ≠ [] then questionMark :: UrlVars.streamTo line.getVars else []) ++
    32 :: line.httpVersion.getHTTPVersionString ++ crlf

/-- The method of a new request is `GET`. -/
def new : RequestLine GetVars := ⟨[71, 69, 84], [], [], .new, ⟨UrlVars.parser, false⟩⟩

/-- `setSecurityMaxURLSize`. -/
def maxURLSize : Fin (2 ^ 64) := ⟨128 * 1024, by decide⟩

def settings : Settings := { Settings.new with parseDelimiter := crlf, parseDataTargetSize := maxURLSize }

/-- The parameters are streamed chunk by chunk to the variables, up to a write that fails, and end there. -/
def parseGETParameters (line : RequestLine GetVars) : RequestLine GetVars :=
  let (verdict, parser) := UrlVars.protocol.writeAll line.getVars.parser (BChunks.chunksOf line.requestURIParameters)
  { line with
    getVars := ⟨UrlVars.protocol.writeEOF parser, line.getVars.failedWriteState || verdict ≠ .open⟩ }

/-- The URI is decoded behind the parameters, which are found in it by the first question mark. -/
def parseURI (line : RequestLine GetVars) : RequestLine GetVars :=
  let found := line.requestURI.takeWhile (· ≠ questionMark)
  let line :=
    match line.requestURI.dropWhile (· ≠ questionMark) with
    | [] => line
    | _ :: parameters =>
      parseGETParameters { line with requestURIParameters := cString parameters, requestURI := found }
  { line with requestURI := Decoders.URL.decodeURLStr line.requestURI }

/-- A line of fewer than two parts is refused; one without a version is of version 1.0. -/
def parse : Parse (RequestLine GetVars) := fun line settings presented =>
  match presented with
  | .element parsedBuffer _ =>
    match split isBlank parsedBuffer with
    | requestMethod :: requestURI :: more =>
      let httpVersion := Version.parseVersion (more.headD [72, 84, 84, 80, 47, 49, 46, 48])
      let line := { line with requestMethod := toUpper requestMethod, requestURI := requestURI, httpVersion := httpVersion }
      (.gotoNextSubParser, settings, parseURI line)
    | _ => (.error, settings, line)
  | .direct _ _ => (.getMoreData, settings, line)

/-- A parser for one request line. -/
def protocol : Protocol (RequestLine GetVars) where
  parse := parse
  changeToNextParser := fun line => some (none, line)
  fresh := fun _ size => Vector.replicate size 0
  maxTTL := 4096

/-- What the writes come to, up to the end of the line or a write that fails. -/
def parsed (writes : List Bytes) : Verdict × RequestLine GetVars :=
  let (verdict, parser) := protocol.writeAll ⟨some (.new settings), new⟩ writes
  (verdict, parser.user)

end RequestLine

end Mantids.HTTP
