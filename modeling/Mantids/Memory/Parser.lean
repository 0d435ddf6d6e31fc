import Mantids.Memory.SubParser

/-! The parser that drives sub parsers (`parser.cpp`), written to piece by piece. -/

set_option autoImplicit false

namespace Mantids.Memory.Streams

/-- How a write ends: `expired` is a failure at the limit of turns. -/
inductive Verdict where
  | open
  | finished
  | failed
  | expired
  deriving DecidableEq, Repr

/-- What a protocol defines over `Parser`, with all its sub parsers in one state. A sub
parser is switched to with its settings, `none` stands for the null pointer. -/
structure Protocol (σ : Type) where
  parse : Parse σ
  changeToNextParser : σ → Option (Option Settings × σ)
  fresh : σ → Fresh
  maxTTL : Nat

structure Parser (σ : Type) where
  currentParser : Option SubParser
  user : σ

/-- One call of `parseData`. The bytes count at the sub parsers, also where the whole
write fails and reports none of them. -/
structure Parsed (σ : Type) where
  verdict : Verdict
  parser : Parser σ
  consumed : Nat
  presented : List Presented
  calls : List (SubParser × Bytes)

/-- What a run of writes amounts to. -/
structure Outcome (σ : Type) where
  presented : List Presented
  consumed : Nat
  verdict : Verdict
  user : σ

section
variable {σ : Type}

/-- The outcome with something read before it. -/
def Outcome.after (outcome : Outcome σ) (presented : List Presented) (consumed : Nat) : Outcome σ :=
  { outcome with presented := presented ++ outcome.presented, consumed := consumed + outcome.consumed }

namespace Parsed

/-- The pair that `parseData` returns. -/
def result (parsed : Parsed σ) : Bool × Nat :=
  match parsed.verdict with
  | .open | .finished => (true, parsed.consumed)
  | .failed | .expired => (false, 0)

/-- What is parsed of the bytes that a call has left. -/
def after (left : Parsed σ) (call : SubParser × Bytes) (presented : List Presented) (taken : Nat) : Parsed σ :=
  { left with
    consumed := taken + left.consumed
    presented := presented ++ left.presented
    calls := call :: left.calls }

/-- The outcome of a write and of what comes later, if the parser is still there for it. -/
def followed (parsed : Parsed σ) (later : Parser σ → Outcome σ) : Outcome σ :=
  if parsed.verdict = .open then (later parsed.parser).after parsed.presented parsed.consumed
  else ⟨parsed.presented, parsed.consumed, parsed.verdict, parsed.parser.user⟩

end Parsed

namespace Protocol
variable (protocol : Protocol σ)

/-- What the status asks of the parser. -/
def turn (status : ParseStatus) (p : SubParser) (user : σ) : Verdict × Parser σ :=
  match status with
  | .error => (.failed, ⟨some p, user⟩)
  | .getMoreData => (.open, ⟨some p, user⟩)
  | .gotoNextSubParser =>
    match protocol.changeToNextParser user with
    | none => (.failed, ⟨some p, user⟩)
    | some (none, user) => (.finished, ⟨none, user⟩)
    | some (some settings, user) => (.open, ⟨some (.new settings), user⟩)

/-- `parseData`, called with `turns` calls left. -/
def parseData : (turns : Nat) → Parser σ → Bytes → Parsed σ
  | 0, parser, _ => ⟨.expired, parser, 0, [], []⟩
  | turns + 1, parser, buf =>
    match parser.currentParser with
    | none => if buf = [] then ⟨.failed, parser, 0, [], []⟩ else parseData turns parser buf
    | some p =>
      let written := writeIntoParser protocol.parse parser.user (protocol.fresh parser.user) p buf
      match written.taken with
      | none => ⟨.failed, ⟨some written.subParser, written.user⟩, 0, written.presented, [(p, buf)]⟩
      | some taken =>
        let (verdict, parser) := protocol.turn written.status written.subParser written.user
        if verdict = .open ∧ taken ≠ buf.length then
          (parseData turns parser (buf.drop taken)).after (p, buf) written.presented taken
        else ⟨verdict, parser, taken, written.presented, [(p, buf)]⟩

def write (parser : Parser σ) (buf : Bytes) : Parsed σ := protocol.parseData (protocol.maxTTL + 1) parser buf

/-- Writes until one fails or finishes. -/
def run : Parser σ → List Bytes → Outcome σ
  | parser, [] => ⟨[], 0, .open, parser.user⟩
  | parser, buf :: later => (protocol.write parser buf).followed fun parser => run parser later

/-- Writes until one fails or finishes, and the parser that they leave. -/
def writeAll : Parser σ → List Bytes → Verdict × Parser σ
  | parser, [] => (.open, parser)
  | parser, buf :: later =>
    let parsed := protocol.write parser buf
    if parsed.verdict = .open then writeAll parsed.parser later else (parsed.verdict, parsed.parser)

/-- The end of the stream is a write of no bytes. -/
def writeEOF (parser : Parser σ) : Parser σ := (protocol.write parser []).parser

/-- The sub parsers written to in a run, each as the write has found it. -/
def calls : Parser σ → List Bytes → List (SubParser × Bytes)
  | _, [] => []
  | parser, buf :: later =>
    let parsed := protocol.write parser buf
    parsed.calls ++ if parsed.verdict = .open then calls parsed.parser later else []

end Protocol

end

end Mantids.Memory.Streams
