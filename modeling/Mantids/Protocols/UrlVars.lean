import Mantids.Memory.Append
import Mantids.Memory.Parser
import Mantids.Library.Multimap
import Mantids.Protocols.Url

/-! URL-formatted variables (`common_urlvars.cpp`, `common_urlvar_subparser.cpp`): the parser
of names and values in turns, and their stream. -/

set_option autoImplicit false

namespace Mantids.HTTP

open Memory Memory.Streams Library

abbrev ampersand : UInt8 := 38

abbrev equalsSign : UInt8 := 61

/-- `boost::to_upper_copy` in the classic locale. -/
def toUpper (name : Bytes) : Bytes := name.map fun byte => if 97 ≤ byte && byte ≤ 122 then byte - 32 else byte

inductive UrlVarStat where
  | waitingName
  | waitingContent
  deriving DecidableEq, Repr

/-- The containers of the variables are taken for their content. -/
structure UrlVars where
  currentStat : UrlVarStat
  currentVarName : Bytes
  vars : Multimap Bytes Bytes
  /-- Of the sub parser: what it has decoded, and its delimiter, which is empty at the end of the stream only. -/
  pData : Bytes
  delimiterFound : Bytes
  deriving DecidableEq

namespace UrlVars

/-- `setMaxObjectSize` of names and of values. -/
def maxObjectSize : Fin (2 ^ 64) := ⟨4096, by decide⟩

/-- The type of the variable part with its delimiters. -/
def settings (currentStat : UrlVarStat) : Settings where
  parseMode := .multiDelimiter
  parseDelimiter := Settings.new.parseDelimiter
  parseMultiDelimiter :=
    match currentStat with
    | .waitingName => [[equalsSign], [ampersand]]
    | .waitingContent => [[ampersand]]
  parseDataTargetSize := maxObjectSize

def new : UrlVars := ⟨.waitingName, [], .empty, [], []⟩

def addVar (u : UrlVars) (varName data : Bytes) : UrlVars :=
  if varName = [] then u else { u with vars := u.vars.insert (toUpper varName) data }

/-- `parse()` of the sub parser. Nothing parsed is not gone on with. -/
def parse : Parse UrlVars := fun u settings presented =>
  match presented with
  | .element parsedBuffer delimiterFound =>
    let u := { u with pData := Decoders.URL.decodeURLStr parsedBuffer, delimiterFound := delimiterFound.getD [] }
    (if parsedBuffer = [] then .getMoreData else .gotoNextSubParser, settings, u)
  | .direct _ _ => (.getMoreData, settings, u)

/-- The name is flushed before the value of a variable that has none is. -/
def changeToNextParser (u : UrlVars) : Option (Option Settings × UrlVars) :=
  match u.currentStat with
  | .waitingName =>
    let u := { u with currentVarName := u.pData, pData := [] }
    if u.delimiterFound = [ampersand] ∨ u.delimiterFound = [] then
      some (some (settings .waitingName), u.addVar u.currentVarName u.pData)
    else some (some (settings .waitingContent), { u with currentStat := .waitingContent })
  | .waitingContent =>
    let u := u.addVar u.currentVarName u.pData
    some (some (settings .waitingName), { u with currentStat := .waitingName, pData := [] })

/-- No mode of this parser reads fresh memory. -/
def protocol : Protocol UrlVars where
  parse := parse
  changeToNextParser := changeToNextParser
  fresh := fun _ size => Vector.replicate size 0
  maxTTL := 4096

def parser : Parser UrlVars := ⟨some (.new (settings .waitingName)), new⟩

/-- The variables after the writes, up to the first that fails, and the end of the stream. -/
def parsed (writes : List Bytes) : Verdict × Multimap Bytes Bytes :=
  let (verdict, parser) := protocol.writeAll parser writes
  (verdict, (protocol.writeEOF parser).user.vars)

/-! ## The stream of variables -/

/-- The value is given by the chunks of its container. -/
def streamVar (varName : Bytes) (value : List Bytes) : Bytes :=
  Encoders.URL.streamChunks (BChunks.chunksOf varName) ++
    if value.flatten.length ≠ 0 then equalsSign :: Encoders.URL.streamChunks value else []

def streamVars : List (Bytes × List Bytes) → Bytes
  | [] => []
  | [var] => streamVar var.1 var.2
  | var :: next :: rest => streamVar var.1 var.2 ++ ampersand :: streamVars (next :: rest)

def streamTo (vars : Multimap Bytes (List Bytes)) : Bytes := streamVars vars.entries

end UrlVars

end Mantids.HTTP
