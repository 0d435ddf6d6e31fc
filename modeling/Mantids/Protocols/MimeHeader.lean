import Mantids.Helpers.Encoders
import Mantids.Library.Replacement
import Mantids.Protocols.MimeMessage

/-! Header blocks with their values taken apart (`mime_sub_header.cpp`). -/

set_option autoImplicit false

namespace Mantids.MIME

open Memory Memory.Streams Library

/-! ## Texts -/

/-- `boost::trim`. -/
def trim (text : Bytes) : Bytes := ((text.dropWhile HTTP.isSpace).reverse.dropWhile HTTP.isSpace).reverse

/-- What `createRandomString(16)` returns. -/
structure RandomString where
  text : Bytes
  length : text.length = 16
  alphanumeric : ∀ byte ∈ text, Helpers.Encoders.isalnum byte = true

/-- For tests. -/
def RandomString.letters : RandomString := ⟨List.replicate 16 97, by decide, by decide⟩

abbrev quotation : UInt8 := 34

abbrev semicolon : UInt8 := 59

abbrev equalsSign : UInt8 := 61

/-- `%lu`. -/
def decimal (number : Nat) : Bytes :=
  if number = 0 then [48] else (Nat.digits 10 number).reverse.map fun digit => 48 + UInt8.ofNat digit

/-- The text between the first two quotation marks. -/
def staticText (text : Bytes) : Option Bytes :=
  match text.dropWhile (· ≠ quotation) with
  | [] => none
  | _ :: rest => if quotation ∈ rest then some (rest.takeWhile (· ≠ quotation)) else none

def staticMessage (secureReplace : RandomString) (pos : Nat) : Bytes :=
  ascii "_STATIC_" ++ secureReplace.text ++ ascii "_" ++ decimal pos

/-- The loop over the quoted texts. Each turn takes two quotation marks away, so there are more turns than it needs. -/
def takeOut (secureReplace : RandomString) : (turns : Nat) → (vStaticTexts : List Bytes) → Bytes → List Bytes × Bytes
  | 0, vStaticTexts, sVarValues => (vStaticTexts, sVarValues)
  | turns + 1, vStaticTexts, sVarValues =>
    match staticText sVarValues with
    | none => (vStaticTexts, sVarValues)
    | some text =>
      takeOut secureReplace turns (vStaticTexts ++ [text])
        (replaceAll (quotation :: text ++ [quotation]) (staticMessage secureReplace vStaticTexts.length) sVarValues)

def replaceBack (secureReplace : RandomString) (vStaticTexts : List Bytes) (text : Bytes) : Bytes :=
  vStaticTexts.zipIdx.foldl (fun text entry => replaceAll (staticMessage secureReplace entry.2) entry.1 text) text

/-! ## Options -/

/-- Options are told apart by their allocation, as pointers tell them apart. -/
structure MIMEHeaderOption where
  allocation : Nat
  maxSubOptionsCount : Nat
  maxHeaderOptSize : Nat
  curHeaderOptSize : Nat
  origName : Bytes
  origValue : Bytes
  value : Bytes
  subVar : Multimap Bytes Bytes

namespace MIMEHeaderOption

def new (allocation : Nat) : MIMEHeaderOption := ⟨allocation, 16, 8 * 1024, 0, [], [], [], .empty⟩

def getString (option : MIMEHeaderOption) : Bytes := option.origName ++ [58, 32] ++ option.origValue

def getUpperName (option : MIMEHeaderOption) : Bytes := HTTP.toUpper option.origName

def getSubVar (option : MIMEHeaderOption) (subVarName : Bytes) : Bytes := (option.subVar.find subVarName).getD []

def isPermited7bitCharset (varX : Bytes) : Bool := varX.all fun byte => 32 ≤ byte && byte ≤ 126

def addSubVar (option : MIMEHeaderOption) (varName varValue : Bytes) : MIMEHeaderOption :=
  if varName = [] ∧ varValue = [] then option
  else if option.maxSubOptionsCount ≤ option.subVar.entries.length then option
  else if option.maxHeaderOptSize < varName.length + varValue.length + option.curHeaderOptSize then option
  else if !isPermited7bitCharset varName || !isPermited7bitCharset varValue then option
  else
    { option with
      curHeaderOptSize := option.curHeaderOptSize + (varName.length + varValue.length)
      subVar := option.subVar.insert varName varValue }

/-- One part of a value, with its quoted texts back in their places. -/
def addPart (restore : Bytes → Bytes) (option : MIMEHeaderOption) (value : Bytes) : MIMEHeaderOption :=
  if equalsSign ∈ value then
    option.addSubVar (restore (trim (value.takeWhile (· ≠ equalsSign))))
      (restore (trim (value.dropWhile (· ≠ equalsSign)).tail))
  else option.addSubVar (restore (trim value)) []

/-- What was there of other values stays, but for the value itself. -/
def parseSubValues (option : MIMEHeaderOption) (secureReplace : RandomString) (strName : Bytes) : MIMEHeaderOption :=
  let (vStaticTexts, sVarValues) := takeOut secureReplace strName.length [] (trim strName)
  let restore := replaceBack secureReplace vStaticTexts
  let vValues := HTTP.split (· = semicolon) sVarValues
  { vValues.foldl (addPart restore) { option with origValue := strName } with
    value := trim (restore (trim (vValues.headD []))) }

end MIMEHeaderOption

/-! ## Blocks -/

/-- `drawn` counts the random strings. -/
structure MIMESubHeader where
  headers : Multimap Bytes MIMEHeaderOption
  lastOpt : Option Nat
  allocated : Nat
  maxOptions : Nat
  drawn : Nat

namespace MIMESubHeader

section
variable (random : Nat → RandomString)

def new : MIMESubHeader := ⟨.empty, none, 0, 32, 0⟩

def exist (header : MIMESubHeader) (optionName : Bytes) : Bool := (header.headers.find (HTTP.toUpper optionName)).isSome

def remove (header : MIMESubHeader) (optionName : Bytes) : MIMESubHeader :=
  { header with headers := header.headers.erase (HTTP.toUpper optionName) }

/-- State 0 adds an option, state 1 goes on with the last one. -/
def add (header : MIMESubHeader) (optionName optionValue : Bytes) (state : Nat) : Bool × MIMESubHeader :=
  if state = 0 then
    if header.headers.entries.length = header.maxOptions then (false, header)
    else
      let optP := { MIMEHeaderOption.new header.allocated with origName := optionName }.parseSubValues
        (random header.drawn) optionValue
      (true,
        { header with
          headers := header.headers.insert optP.getUpperName optP
          lastOpt := some header.allocated
          allocated := header.allocated + 1
          drawn := header.drawn + 1 })
  else
    match header.lastOpt with
    | some lastOpt =>
      if state = 1 then
        (true,
          { header with
            headers := header.headers.map fun option =>
              if option.allocation = lastOpt then option.parseSubValues (random header.drawn) optionValue else option
            drawn := header.drawn + 1 })
      else (true, header)
    | none => (true, header)

def replace (header : MIMESubHeader) (optionName optionValue : Bytes) : MIMESubHeader :=
  ((header.remove optionName).add random optionName optionValue 0).2

def getOptionByName (header : MIMESubHeader) (varName : Bytes) : Option MIMEHeaderOption :=
  header.headers.find (HTTP.toUpper varName)

def getOptionsByName (header : MIMESubHeader) (varName : Bytes) : List MIMEHeaderOption :=
  header.headers.values (HTTP.toUpper varName)

def getOptionRawStringByName (header : MIMESubHeader) (varName : Bytes) : Bytes :=
  ((header.getOptionByName varName).map (·.origValue)).getD []

def getOptionValueStringByName (header : MIMESubHeader) (varName : Bytes) : Bytes :=
  ((header.getOptionByName varName).map (·.value)).getD []

/-- The value is what a C string has of the rest of the line, and a line without a separator is passed over. -/
def parseOptionValue (header : MIMESubHeader) (optionValue : Bytes) : MIMESubHeader :=
  if optionValue.head? = some 32 ∨ optionValue.head? = some 9 then (header.add random [] optionValue 1).2
  else
    match occurrence [58, 32] optionValue with
    | some found => (header.add random (optionValue.take found) (HTTP.cString (optionValue.drop (found + 2))) 0).2
    | none => header

def settings : Settings := { Settings.new with parseDelimiter := crlf, parseDataTargetSize := ⟨8 * 1024, Message.headerLine_word⟩ }

/-- A line that is empty ends the block. -/
def parse (header : MIMESubHeader) (parsedBuffer : Bytes) : ParseStatus × MIMESubHeader :=
  if parsedBuffer = [] then (.gotoNextSubParser, header) else (.getMoreData, header.parseOptionValue random parsedBuffer)

/-- The lines of the options, without the empty one. -/
def lines (header : MIMESubHeader) : List Bytes := header.headers.entries.map (·.2.getString)

def stream (header : MIMESubHeader) : Bytes := header.lines.flatMap (· ++ crlf) ++ crlf

end

end MIMESubHeader

end Mantids.MIME
