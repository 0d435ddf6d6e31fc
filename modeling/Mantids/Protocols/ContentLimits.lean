import Mantids.Memory.Direct
import Mantids.Protocols.ChunkedTransfer

/-! The limits of a body (`common_content.cpp`): direct mode counts down what is left of them, and chunks
do not count. -/

set_option autoImplicit false

namespace Mantids.HTTP

open Memory Memory.Streams

namespace Content

/-- `setTransmitionMode` after `setSecurityMaxPostDataSize`. -/
def setTransmitionModeUnder (securityMaxPostDataSize : Fin (2 ^ 64)) (content : Content) (settings : Settings) :
    TransmitionMode → Settings × Content
  | .transmitModeConnectionClose =>
    ({ settings.setParseMode .direct with parseDataTargetSize := securityMaxPostDataSize },
      { content with currentMode := .procModeConnectionClose })
  | .transmitModeChunks => content.setTransmitionMode settings .transmitModeChunks
  | .transmitModeContentLength => content.setTransmitionMode settings .transmitModeContentLength

theorem setTransmitionModeUnder_default (content : Content) (settings : Settings) (mode : TransmitionMode) :
    content.setTransmitionModeUnder Content.securityMaxPostDataSize settings mode =
      content.setTransmitionMode settings mode := by
  cases mode <;> rfl

def setContentLenSize (securityMaxPostDataSize contentLengthSize : Fin (2 ^ 64)) (settings : Settings) : Bool × Settings :=
  if securityMaxPostDataSize < contentLengthSize then (false, { settings with parseDataTargetSize := ⟨0, by decide⟩ })
  else (true, { settings with parseDataTargetSize := contentLengthSize })

/-- A content as the constructor leaves it. -/
def new : Content := ⟨.procModeContentLength, []⟩

/-- The two modes whose sub parser is a direct one. -/
def Counting (content : Content) : Prop :=
  content.currentMode = .procModeContentLength ∨ content.currentMode = .procModeConnectionClose

/-- A parser of a body with what has been delivered of the bytes that are allowed. -/
structure Within (limit : Nat) (parser : Parser Content) : Prop where
  counting : parser.user.Counting
  direct : ∃ p left, parser.currentParser = some p ∧ Direct p left ∧ parser.user.outStream.length + left = limit

section
variable {content : Content} (counting : content.Counting) (settings : Settings) (parsedBuffer : Bytes) (leftToParse : Nat)
include counting

end

/-- What a write to such a parser comes to. -/
structure Counted (limit : Nat) (parser : Parser Content) (buf : Bytes) (parsed : Parsed Content) : Prop where
  bounded : parsed.parser.user.outStream.length ≤ limit
  within : parsed.verdict = .open → Within limit parsed.parser
  mode : parsed.verdict = .open → parsed.parser.user.currentMode = parser.user.currentMode
  whole : parsed.verdict = .open → parsed.parser.user.outStream = parser.user.outStream ++ buf
  unfinished : parser.user.currentMode = .procModeConnectionClose → buf ≠ [] → parsed.verdict ≠ .finished

end Content

end Mantids.HTTP
