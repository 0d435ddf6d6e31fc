import Mantids.Memory.SwitchingParser
import Mantids.Protocols.ContentLimits
import Mantids.Protocols.RequestHead

/-! The server of one request (`httpv1_server.cpp`): its changes of sub parser, and the answer that ends them. -/

set_option autoImplicit false

namespace Mantids.HTTP

open Memory Memory.Streams Library MIME

theorem strtoul_word (text : Bytes) : strtoul text < 2 ^ 64 := by
  unfold strtoul
  split
  · split
    · exact Nat.mod_lt _ (Nat.two_pow_pos 64)
    · decide
  · omega
  · omega

end Mantids.HTTP

namespace Mantids.MIME.MIMESubHeader

/-- An option that there is not counts as zero. -/
def getOptionAsUINT64 (header : MIMESubHeader) (varName : Memory.Bytes) : Fin (2 ^ 64) :=
  ⟨HTTP.strtoul (header.getOptionValueStringByName varName), HTTP.strtoul_word _⟩

end Mantids.MIME.MIMESubHeader

namespace Mantids.HTTP

open Memory Memory.Streams Library MIME

/-- The three streams of an answer. -/
inductive AnswerPart where
  | status
  | headers
  | content
  deriving DecidableEq

/-- What the server has done so far, apart from parsing. -/
inductive ServerEvent where
  | procHTTPClientURI (goOn : Bool)
  | procHTTPClientHeaders (goOn : Bool)
  | procHTTPClientContent
  | streamed (part : AnswerPart) (succeed : Bool)
  deriving DecidableEq

/-- The program behind a server: what it makes of the request, with a state of its own that the answer is streamed from.
A content that sets no code answers none. -/
structure ServerProgram (ρ υ : Type) where
  procHTTPClientURI : RequestHead → ρ → Bool × ρ
  procHTTPClientHeaders : RequestHead → ρ → Bool × ρ
  procHTTPClientContent : RequestHead → Content → ρ → Option UInt16 × ρ
  stream : AnswerPart → (retCode : UInt16) → ρ → υ → Bool × υ

structure HTTPv1Server (ρ υ : Type) where
  head : RequestHead
  content : Content
  retCode : UInt16
  program : ρ
  upStream : υ
  history : List ServerEvent

namespace HTTPv1Server

section
variable {ρ υ : Type}

def new (program : ρ) (upStream : υ) : HTTPv1Server ρ υ := ⟨.new, .new, 0, program, upStream, []⟩

variable (proc : ServerProgram ρ υ)

/-- The streams of the answer, up to one that fails. -/
def streamParts : List AnswerPart → HTTPv1Server ρ υ → Bool × HTTPv1Server ρ υ
  | [], server => (true, server)
  | part :: rest, server =>
    let (succeed, upStream) := proc.stream part server.retCode server.program server.upStream
    let server := { server with upStream := upStream, history := server.history ++ [ServerEvent.streamed part succeed] }
    if succeed then streamParts rest server else (false, server)

/-- The content is for a good request only. -/
def processContent (server : HTTPv1Server ρ υ) : HTTPv1Server ρ υ :=
  if server.head.badAnswer then server
  else
    let (retCode, program) := proc.procHTTPClientContent server.head server.content server.program
    { server with
      retCode := retCode.getD server.retCode
      program := program
      history := server.history ++ [ServerEvent.procHTTPClientContent] }

/-- There is no sub parser any more. -/
def leave (phase : HeadPhase) (server : HTTPv1Server ρ υ) : HTTPv1Server ρ υ :=
  { server with head := { server.head with phase := phase } }

/-- The parser is left before the streams begin. -/
def answer (server : HTTPv1Server ρ υ) : Bool × HTTPv1Server ρ υ :=
  streamParts proc [.status, .headers, .content] ((server.processContent proc).leave .answered)

/-- A code of the server's own, and no content hook. -/
def answerBad (retCode : UInt16) (server : HTTPv1Server ρ υ) : Bool × HTTPv1Server ρ υ :=
  answer proc { server with head := { server.head with badAnswer := true }, retCode := retCode }

def changeToNextParserOnClientRequest (server : HTTPv1Server ρ υ) : Bool × Option Settings × HTTPv1Server ρ υ :=
  if server.head.requestLine.httpVersion.versionMajor ≠ 1 then
    let (succeed, server) := answerBad proc 505 server
    (succeed, none, server)
  else
    let (goOn, program) := proc.procHTTPClientURI server.head server.program
    let server := { server with program := program, history := server.history ++ [ServerEvent.procHTTPClientURI goOn] }
    if goOn then (true, some MIMESubHeader.settings, { server with head := { server.head with phase := .headers } })
    else (true, none, server.leave .closed)

/-- The end of the headers, once they are acceptable: the content is parsed if there is any. -/
def procHeaders (content : Option Settings) (server : HTTPv1Server ρ υ) : Bool × Option Settings × HTTPv1Server ρ υ :=
  let (goOn, program) := proc.procHTTPClientHeaders server.head server.program
  let server := { server with program := program, history := server.history ++ [ServerEvent.procHTTPClientHeaders goOn] }
  if goOn then
    match content with
    | some settings => (true, some settings, server)
    | none =>
      let (succeed, server) := answer proc server
      (succeed, none, server)
  else (true, none, server.leave .closed)

variable (securityMaxPostDataSize : Fin (2 ^ 64))

def changeToNextParserOnClientHeaders (server : HTTPv1Server ρ υ) : Bool × Option Settings × HTTPv1Server ρ υ :=
  let server := { server with head := server.head.onClientHeaders }
  if server.head.badAnswer then
    let (succeed, server) := answerBad proc 400 server
    (succeed, none, server)
  else
    let contentLength := server.head.headers.getOptionAsUINT64 (ascii "Content-Length")
    if (contentLength : Nat) ≠ 0 then
      let (settings, content) :=
        server.content.setTransmitionModeUnder securityMaxPostDataSize .new .transmitModeContentLength
      let (accepted, settings) := Content.setContentLenSize securityMaxPostDataSize contentLength settings
      if accepted then procHeaders proc (some settings) { server with content := content }
      else
        let (succeed, server) := answerBad proc 413 { server with content := content }
        (succeed, none, server)
    else procHeaders proc none server

def changeToNextParserOnClientContentData (server : HTTPv1Server ρ υ) : Bool × Option Settings × HTTPv1Server ρ υ :=
  let (succeed, server) := answer proc server
  (succeed, none, server)

/-- What neither the request line nor the headers are at is the content. -/
def changeToNextParser (server : HTTPv1Server ρ υ) : Bool × Option Settings × HTTPv1Server ρ υ :=
  match server.head.phase with
  | .requestLine => server.changeToNextParserOnClientRequest proc
  | .headers => server.changeToNextParserOnClientHeaders proc securityMaxPostDataSize
  | .answered | .closed | .finished => server.changeToNextParserOnClientContentData proc

def parse (random : Nat → RandomString) : Parse (HTTPv1Server ρ υ) := fun server settings presented =>
  match server.head.phase with
  | .requestLine | .headers =>
    let (status, settings, head) := RequestHead.parse random server.head settings presented
    (status, settings, { server with head := head })
  | .answered | .closed | .finished =>
    let (status, settings, content) := Content.parse server.content settings presented
    (status, settings, { server with content := content })

def switching (random : Nat → RandomString) : Switching (HTTPv1Server ρ υ) where
  parse := parse random
  changeToNextParser := changeToNextParser proc securityMaxPostDataSize
  fresh := fun _ size => Vector.replicate size 0
  maxTTL := 4096

/-- A server that these writes have come to; one of no bytes is the end of the stream. -/
def fed (random : Nat → RandomString) (program : ρ) (upStream : υ) (writes : List Bytes) :
    Parser (HTTPv1Server ρ υ) × List (Addressed (HTTPv1Server ρ υ)) :=
  (switching proc securityMaxPostDataSize random).feed ⟨some (.new RequestLine.settings), new program upStream⟩ writes

/-! ## One answer -/

/-- The streams that have been begun. -/
def parts (history : List ServerEvent) : List AnswerPart :=
  history.filterMap fun event => match event with
    | .streamed part _ => some part
    | _ => none

/-- How often the content has been processed. -/
def contents (history : List ServerEvent) : Nat := history.count .procHTTPClientContent

/-- Nothing has been answered, nor the content processed. -/
def Silent (history : List ServerEvent) : Prop := parts history = [] ∧ contents history = 0

/-- A version and a host that are not answered at once, and a content that is taken. -/
structure Acceptable (securityMaxPostDataSize : Fin (2 ^ 64)) (head : RequestHead) : Prop where
  good : head.badAnswer = false
  version : head.requestLine.httpVersion.versionMajor = 1
  host : 1 ≤ head.requestLine.httpVersion.versionMinor → head.virtualHost ≠ []
  content : head.headers.getOptionAsUINT64 (ascii "Content-Length") ≤ securityMaxPostDataSize

/-- A server with a sub parser. -/
structure Alive (server : HTTPv1Server ρ υ) : Prop where
  silent : Silent server.history
  good : server.head.badAnswer = false
  version : server.head.phase ≠ .requestLine → server.head.requestLine.httpVersion.versionMajor = 1
  acceptable : server.head.phase = .finished → Acceptable securityMaxPostDataSize server.head
  parsing : server.head.phase ≠ .answered ∧ server.head.phase ≠ .closed

/-- A server without one. -/
structure Done (server : HTTPv1Server ρ υ) : Prop where
  once : parts server.history <+: [.status, .headers, .content]
  content : contents server.history ≤ 1
  acceptable : contents server.history ≠ 0 → Acceptable securityMaxPostDataSize server.head

theorem parts_append (first second : List ServerEvent) : parts (first ++ second) = parts first ++ parts second :=
  List.filterMap_append

theorem contents_append (first second : List ServerEvent) : contents (first ++ second) = contents first + contents second :=
  List.count_append

theorem streamParts_history (wanted : List AnswerPart) (server : HTTPv1Server ρ υ) :
    ∃ begun, begun <+: wanted ∧ parts (streamParts proc wanted server).2.history = parts server.history ++ begun ∧
      contents (streamParts proc wanted server).2.history = contents server.history ∧
      (streamParts proc wanted server).2.head = server.head := by
  induction wanted generalizing server with
  | nil => exact ⟨[], List.prefix_rfl, (List.append_nil _).symm, rfl, rfl⟩
  | cons part rest ih =>
    unfold streamParts
    generalize proc.stream part server.retCode server.program server.upStream = result
    obtain ⟨succeed, upStream⟩ := result
    dsimp only
    have one : parts (server.history ++ [.streamed part succeed]) = parts server.history ++ [part] := by
      rw [parts_append]
      rfl
    have none : contents (server.history ++ [.streamed part succeed]) = contents server.history := by
      rw [contents_append]
      rfl
    split
    case isTrue _ =>
      obtain ⟨begun, begins, history, content, head⟩ :=
        ih { server with upStream := upStream, history := server.history ++ [.streamed part succeed] }
      refine ⟨part :: begun, List.cons_prefix_cons.mpr ⟨rfl, begins⟩, ?_, content.trans none, head⟩
      rw [history, one, List.append_assoc]
      rfl
    case isFalse _ => exact ⟨[part], List.cons_prefix_cons.mpr ⟨rfl, List.nil_prefix⟩, one, none, rfl⟩

variable {proc securityMaxPostDataSize} {server : HTTPv1Server ρ υ}

theorem Acceptable.phase {head : RequestHead} (acceptable : Acceptable securityMaxPostDataSize head) (phase : HeadPhase) :
    Acceptable securityMaxPostDataSize { head with phase := phase } :=
  ⟨acceptable.good, acceptable.version, acceptable.host, acceptable.content⟩

theorem done_streamParts (nothing : parts server.history = []) (content : contents server.history ≤ 1)
    (acceptable : contents server.history ≠ 0 → Acceptable securityMaxPostDataSize server.head) :
    Done securityMaxPostDataSize (streamParts proc [.status, .headers, .content] server).2 := by
  obtain ⟨begun, begins, history, same, head⟩ := streamParts_history proc [.status, .headers, .content] server
  rw [nothing, List.nil_append] at history
  exact ⟨by rwa [history], by rwa [same], by rwa [same, head]⟩

theorem done_answer (silent : Silent server.history)
    (acceptable : server.head.badAnswer = false → Acceptable securityMaxPostDataSize server.head) :
    Done securityMaxPostDataSize (answer proc server).2 := by
  unfold answer processContent
  cases bad : server.head.badAnswer with
  | true => exact done_streamParts silent.1 (Nat.le_of_eq silent.2 |>.trans (Nat.zero_le 1)) fun some => absurd silent.2 some
  | false =>
    have content : contents (server.history ++ [.procHTTPClientContent]) = 1 := by
      rw [contents_append, silent.2]
      rfl
    apply done_streamParts
    case nothing =>
      refine (parts_append _ _).trans ?_
      rw [silent.1]
      rfl
    case content => exact Nat.le_of_eq content
    case acceptable => exact fun _ => (acceptable bad).phase .answered

theorem done_answerBad (silent : Silent server.history) (retCode : UInt16) :
    Done securityMaxPostDataSize (answerBad proc retCode server).2 :=
  done_answer silent fun good => by cases good

theorem done_silent (silent : Silent server.history) : Done securityMaxPostDataSize server where
  once := by
    rw [silent.1]
    exact List.nil_prefix
  content := by
    rw [silent.2]
    exact Nat.zero_le 1
  acceptable := fun some => absurd silent.2 some

theorem Silent.append {history : List ServerEvent} (silent : Silent history) (event : ServerEvent)
    (quiet : Silent [event]) : Silent (history ++ [event]) := by
  refine ⟨?_, ?_⟩
  · rw [parts_append, silent.1, quiet.1]
    rfl
  · rw [contents_append, silent.2, quiet.2]

/-- What a change of sub parser comes to. -/
structure Changes (securityMaxPostDataSize : Fin (2 ^ 64)) (result : Bool × Option Settings × HTTPv1Server ρ υ) : Prop where
  switches : ∀ settings, result.2.1 = some settings → Alive securityMaxPostDataSize result.2.2
  ends : result.2.1 = none → Done securityMaxPostDataSize result.2.2

theorem changes_done {succeed : Bool} (done : Done securityMaxPostDataSize server) :
    Changes securityMaxPostDataSize (succeed, none, server) :=
  ⟨fun _ impossible => (by cases impossible), fun _ => done⟩

theorem changes_onClientRequest (alive : Alive securityMaxPostDataSize server) :
    Changes securityMaxPostDataSize (changeToNextParserOnClientRequest proc server) := by
  unfold changeToNextParserOnClientRequest
  split
  case isTrue other => exact changes_done (done_answerBad alive.silent 505)
  case isFalse version =>
    generalize proc.procHTTPClientURI server.head server.program = result
    obtain ⟨goOn, program⟩ := result
    have silent := alive.silent.append (.procHTTPClientURI goOn) ⟨rfl, rfl⟩
    dsimp only
    split
    case isTrue _ =>
      refine ⟨fun _ _ => ?_, fun none => by cases none⟩
      exact ⟨silent, alive.good, fun _ => not_not.mp version, fun finished => (by cases finished),
        fun impossible => (by cases impossible), fun impossible => by cases impossible⟩
    case isFalse _ => exact changes_done (done_silent silent)

theorem changes_procHeaders {content : Option Settings} (silent : Silent server.history)
    (finished : server.head.phase = .finished) (acceptable : Acceptable securityMaxPostDataSize server.head) :
    Changes securityMaxPostDataSize (procHeaders proc content server) := by
  unfold procHeaders
  generalize proc.procHTTPClientHeaders server.head server.program = result
  obtain ⟨goOn, program⟩ := result
  have later := silent.append (.procHTTPClientHeaders goOn) ⟨rfl, rfl⟩
  dsimp only
  split
  case isTrue _ =>
    cases content with
    | none => exact changes_done (done_answer later fun _ => acceptable)
    | some settings =>
      refine ⟨fun _ _ => ?_, fun none => by cases none⟩
      exact ⟨later, acceptable.good, fun _ => acceptable.version, fun _ => acceptable, by
        rw [finished]
        exact ⟨fun impossible => (by cases impossible), fun impossible => by cases impossible⟩⟩
  case isFalse _ => exact changes_done (done_silent later)

/-- What the checks of the headers leave. -/
theorem onClientHeaders_eq (head : RequestHead) :
    head.onClientHeaders.phase = .finished ∧ head.onClientHeaders.requestLine = head.requestLine ∧
      (head.onClientHeaders.badAnswer = false →
        1 ≤ head.requestLine.httpVersion.versionMinor → head.onClientHeaders.virtualHost ≠ []) := by
  have host : head.parseHostOptions.requestLine = head.requestLine := by
    unfold RequestHead.parseHostOptions
    dsimp only
    split
    · rfl
    · split <;> rfl
  have agent (head : RequestHead) : head.parseUserAgent.requestLine = head.requestLine ∧
      head.parseUserAgent.badAnswer = head.badAnswer ∧ head.parseUserAgent.virtualHost = head.virtualHost := by
    unfold RequestHead.parseUserAgent
    split <;> exact ⟨rfl, rfl, rfl⟩
  refine ⟨rfl, ?_, ?_⟩
  · refine (agent _).1.trans ?_
    refine Eq.trans ?_ host
    unfold RequestHead.parseBasicAuth RequestHead.prepareServerVersionOnOptions
    dsimp only
    split <;> rfl
  · intro good minor
    have checked := (agent _).2.1.symm.trans good
    refine fun none => ?_
    have nobody := (agent _).2.2.symm.trans none
    unfold RequestHead.parseBasicAuth RequestHead.prepareServerVersionOnOptions at checked nobody
    dsimp only at checked nobody
    split at checked
    case isTrue _ => cases checked
    case isFalse kept =>
      rw [if_neg kept] at nobody
      exact kept ⟨by rwa [host], nobody⟩

theorem changes_onClientHeaders (alive : Alive securityMaxPostDataSize server) (phase : server.head.phase = .headers) :
    Changes securityMaxPostDataSize (changeToNextParserOnClientHeaders proc securityMaxPostDataSize server) := by
  obtain ⟨finished, line, host⟩ := onClientHeaders_eq server.head
  have version : server.head.onClientHeaders.requestLine.httpVersion.versionMajor = 1 := by
    rw [line]
    exact alive.version (by rw [phase]; exact fun impossible => by cases impossible)
  rw [← line] at host
  unfold changeToNextParserOnClientHeaders
  generalize server.head.onClientHeaders = head at finished version host
  dsimp only
  cases bad : head.badAnswer with
  | true =>
    apply changes_done
    apply done_answerBad
    exact alive.silent
  | false =>
    simp only [Bool.false_eq_true, if_false]
    split
    case isTrue some =>
      unfold Content.setContentLenSize
      split
      case isTrue long =>
        apply changes_done
        apply done_answerBad
        exact alive.silent
      case isFalse short =>
        simp only [if_true]
        apply changes_procHeaders
        case silent => exact alive.silent
        case finished => exact finished
        case acceptable => exact ⟨bad, version, host bad, not_lt.mp short⟩
    case isFalse none =>
      have zero : (head.headers.getOptionAsUINT64 (ascii "Content-Length") : Nat) = 0 := not_not.mp none
      apply changes_procHeaders
      case silent => exact alive.silent
      case finished => exact finished
      case acceptable =>
        refine ⟨bad, version, host bad, ?_⟩
        rw [Fin.le_iff_val_le_val, zero]
        exact Nat.zero_le _

theorem keeps_alive (proc : ServerProgram ρ υ) (securityMaxPostDataSize : Fin (2 ^ 64)) (random : Nat → RandomString) :
    Switching.Keeps (Alive securityMaxPostDataSize) (Done securityMaxPostDataSize)
      (switching proc securityMaxPostDataSize random) := by
  have changes : ∀ server, Alive securityMaxPostDataSize server →
      Changes securityMaxPostDataSize (changeToNextParser proc securityMaxPostDataSize server) := by
    intro server alive
    unfold changeToNextParser
    cases phase : server.head.phase with
    | requestLine => exact changes_onClientRequest alive
    | headers => exact changes_onClientHeaders alive phase
    | answered => exact absurd phase alive.parsing.1
    | closed => exact absurd phase alive.parsing.2
    | finished => exact changes_done (done_answer alive.silent fun _ => alive.acceptable phase)
  constructor
  case parse =>
    intro server settings presented alive
    change Alive securityMaxPostDataSize (parse random server settings presented).2.2
    unfold parse
    cases phase : server.head.phase with
    | requestLine =>
      dsimp only
      have kept : (RequestHead.parse random server.head settings presented).2.2 =
          { server.head with requestLine := (RequestLine.parse server.head.requestLine settings presented).2.2 } := by
        simp only [RequestHead.parse, phase]
      rw [kept]
      exact ⟨alive.silent, alive.good, fun other => absurd phase other,
        fun finished => absurd (phase.symm.trans finished) (by decide), alive.parsing⟩
    | headers =>
      dsimp only
      obtain ⟨headers, kept⟩ : ∃ headers, (RequestHead.parse random server.head settings presented).2.2 =
          { server.head with headers := headers } := by
        cases presented with
        | element parsedBuffer delimiterFound =>
          refine ⟨(server.head.headers.parse random parsedBuffer).2, ?_⟩
          simp only [RequestHead.parse, phase]
        | direct parsedBuffer leftToParse =>
          refine ⟨server.head.headers, ?_⟩
          simp only [RequestHead.parse, phase]
          rw [← phase]
      rw [kept]
      exact ⟨alive.silent, alive.good, alive.version,
        fun finished => absurd (phase.symm.trans finished) (by decide), alive.parsing⟩
    | answered => exact absurd phase alive.parsing.1
    | closed => exact absurd phase alive.parsing.2
    | finished => exact ⟨alive.silent, alive.good, alive.version, alive.acceptable, alive.parsing⟩
  case switches => exact fun server settings alive some => (changes server alive).switches settings some
  case ends => exact fun server alive none => (changes server alive).ends none

/-- However the stream is cut, wherever it ends and whatever the program makes of the request: one answer at most is
begun, its streams in order; the content is processed once at most, and only of a request that is not answered at once;
and no sub parser is written to when an answer has been begun. -/
theorem one_answer (proc : ServerProgram ρ υ) (securityMaxPostDataSize : Fin (2 ^ 64)) (random : Nat → RandomString)
    (program : ρ) (upStream : υ) (writes : List Bytes) :
    let (parser, calls) := fed proc securityMaxPostDataSize random program upStream writes
    parts parser.user.history <+: [.status, .headers, .content] ∧ contents parser.user.history ≤ 1 ∧
      (contents parser.user.history ≠ 0 → Acceptable securityMaxPostDataSize parser.user.head) ∧
      ∀ call ∈ calls, parts call.user.history = [] := by
  have start : Alive securityMaxPostDataSize (new program upStream) :=
    ⟨⟨rfl, rfl⟩, rfl, fun other => absurd rfl other, fun finished => (by cases finished),
      fun impossible => (by cases impossible), fun impossible => by cases impossible⟩
  obtain ⟨stays, calls⟩ := Switching.feed_stays (keeps_alive proc securityMaxPostDataSize random)
    (Switching.stays_some start) writes
  dsimp only [fed]
  generalize (switching proc securityMaxPostDataSize random).feed
    ⟨some (.new RequestLine.settings), new program upStream⟩ writes = result at stays calls
  obtain ⟨⟨currentParser, server⟩, addressed⟩ := result
  have done : Done securityMaxPostDataSize server := by
    cases currentParser with
    | none => exact stays.done rfl
    | some p => exact done_silent (stays.alive p rfl).silent
  exact ⟨done.once, done.content, done.acceptable, fun call member => (calls call member).silent.1⟩

end

end HTTPv1Server

end Mantids.HTTP
