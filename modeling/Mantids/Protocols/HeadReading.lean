import Mantids.Protocols.RequestHead
import Mantids.Protocols.RequestRoundTrip

/-! How a server reads the head of a request: when it comes to its end, and with what. -/

set_option autoImplicit false

namespace Mantids.HTTP

open Memory Memory.Streams Library MIME

theorem RequestLine.settings_parse (line : RequestLine GetVars) (settings : Settings) (presented : Presented) :
    (RequestLine.parse line settings presented).2.1 = settings := by
  unfold RequestLine.parse
  split
  · split <;> rfl
  · rfl

namespace RequestHead

section
variable (procHTTPClientURI : RequestHead → Bool) (random : Nat → RandomString)

theorem settings_parse (head : RequestHead) (settings : Settings) (presented : Presented) :
    (parse random head settings presented).2.1 = settings := by
  unfold parse
  split
  · exact RequestLine.settings_parse head.requestLine settings presented
  · split <;> rfl
  all_goals rfl

theorem line_headers : MIMESubHeader.settings.Line := ⟨rfl, by decide, by decide⟩

theorem settings_of_change {head head' : RequestHead} {settings : Settings}
    (change : changeToNextParser procHTTPClientURI head = some (some settings, head')) :
    settings = MIMESubHeader.settings ∧ head.phase = .requestLine ∧ head' = { head with phase := .headers } := by
  unfold changeToNextParser at change
  cases phase : head.phase with
  | requestLine =>
    simp only [phase, onClientRequest, Option.some.injEq] at change
    split at change
    · cases change
    · split at change
      · cases change
        exact ⟨rfl, rfl, rfl⟩
      · cases change
  | headers =>
    simp only [phase] at change
    cases change
  | _ =>
    simp only [phase] at change
    cases change

theorem lines_protocol : (protocol procHTTPClientURI random).Lines where
  parse head settings presented line := by
    change (parse random head settings presented).2.1.Line
    rwa [settings_parse]
  changeToNextParser head settings head' change := by
    rw [(settings_of_change procHTTPClientURI change).1]
    exact line_headers

theorem bounded_protocol : (protocol procHTTPClientURI random).Bounded := by
  apply (lines_protocol procHTTPClientURI random).bounded
  intro head settings presented bounded
  change (parse random head settings presented).2.1.Bounded
  rwa [settings_parse]

/-! ## The lines of the headers -/

section
variable {head : RequestHead} (phase : head.phase = .headers)
include phase

theorem read_line {line : Bytes} (filled : line ≠ []) :
    (protocol procHTTPClientURI random).read head MIMESubHeader.settings (.element line none) =
      (.open, ⟨some (.new MIMESubHeader.settings),
        { head with headers := head.headers.parseOptionValue random line }⟩) := by
  have parsed : parse random head MIMESubHeader.settings (.element line none) = (.getMoreData, MIMESubHeader.settings,
      { head with headers := head.headers.parseOptionValue random line }) := by
    simp only [parse, phase, MIMESubHeader.parse, filled, if_false]
  have same : (protocol procHTTPClientURI random).parse = parse random := rfl
  simp only [Protocol.read, same, parsed, Protocol.turn]

theorem read_end :
    (protocol procHTTPClientURI random).read head MIMESubHeader.settings (.element [] none) =
      (.finished, ⟨none, head.onClientHeaders⟩) := by
  have parsed : parse random head MIMESubHeader.settings (.element [] none) =
      (.gotoNextSubParser, MIMESubHeader.settings, head) := by
    cases head
    subst phase
    rfl
  have change : (protocol procHTTPClientURI random).changeToNextParser head = some (none, head.onClientHeaders) := by
    change changeToNextParser procHTTPClientURI head = _
    simp only [changeToNextParser, phase]
  have same : (protocol procHTTPClientURI random).parse = parse random := rfl
  simp only [Protocol.read, same, parsed, Protocol.turn, change]

end

/-- A line of the headers in a stream. -/
theorem firstElement_line {line : Bytes} (plain : 13 ∉ line) (later : Bytes) :
    MIMESubHeader.settings.firstElement (line ++ MIME.crlf ++ later) =
      if line.length + MIME.crlf.length ≤ 8 * 1024 then some ⟨line, none, line.length + MIME.crlf.length⟩ else none :=
  line_headers.firstElement_eq rfl plain later

variable {lines : List Bytes} (plain : ∀ line ∈ lines, line ≠ [] ∧ 13 ∉ line)
include plain

end

/-! ## The end of the headers -/

section
variable (head : RequestHead)

@[simp] theorem basicAuth_parseHostOptions : head.parseHostOptions.basicAuth = head.basicAuth := by
  unfold parseHostOptions
  dsimp only
  split
  · rfl
  · split <;> rfl

@[simp] theorem basicAuth_prepareServerVersionOnOptions :
    head.prepareServerVersionOnOptions.basicAuth = head.basicAuth := by
  unfold prepareServerVersionOnOptions
  split <;> rfl

end

/-! ## The whole head -/

section
variable (procHTTPClientURI : RequestHead → Bool) (random : Nat → RandomString)
  {line : RequestLine (Multimap Bytes (List Bytes))}

/-- The line of the stream is read as one of HTTP/1, and the server goes on with it. -/
def Accepted (line : RequestLine (Multimap Bytes (List Bytes))) (requestLine : RequestLine GetVars) : Prop :=
  RequestLine.parse .new RequestLine.settings (.element line.body none) =
      (.gotoNextSubParser, RequestLine.settings, requestLine) ∧
    requestLine.httpVersion.versionMajor = 1 ∧ procHTTPClientURI { new with requestLine := requestLine } = true

section
variable (method : ¬RequestLine.crlf <:+: line.requestMethod) (uri : ¬RequestLine.crlf <:+: line.requestURI)
include method uri

variable {lines : List Bytes} (plain : ∀ line ∈ lines, line ≠ [] ∧ 13 ∉ line) (later : Bytes)
include plain

end

end

end RequestHead

end Mantids.HTTP
