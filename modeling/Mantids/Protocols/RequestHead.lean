import Mantids.Memory.LineProtocols
import Mantids.Protocols.HttpClient

/-! The head of a request at the server (`httpv1_server.cpp`): the request line and the headers, up to where the content
or the answer takes over. Neither of these changes what is kept here. -/

set_option autoImplicit false

namespace Mantids.HTTP

open Memory Memory.Streams Library MIME

/-- What is parsed next, or why there is nothing more: the request is answered for its bad line, or not gone on with
after it, or its head is read. -/
inductive HeadPhase where
  | requestLine
  | headers
  | answered
  | closed
  | finished
  deriving DecidableEq, Repr

structure RequestHead where
  phase : HeadPhase
  requestLine : RequestLine GetVars
  headers : MIMESubHeader
  basicAuth : BasicAuth
  userAgent : Bytes
  virtualHost : Bytes
  virtualPort : UInt16
  badAnswer : Bool

/-- The user name and the password behind `Basic`, in a value of two parts. -/
def credential (value : Bytes) : Option (Bytes × Bytes) :=
  match split (· = 32) value with
  | [scheme, encoded] =>
    let bp := Helpers.Encoders.fromBase64 encoded
    if scheme = ascii "Basic" ∧ colon ∈ bp then some (bp.takeWhile (· ≠ colon), (bp.dropWhile (· ≠ colon)).tail) else none
  | _ => none

namespace RequestHead

def new : RequestHead := ⟨.requestLine, .new, .new, .new, [], [], 80, false⟩

def parseHostOptions (head : RequestHead) : RequestHead :=
  let hostVal := head.headers.getOptionValueStringByName (ascii "HOST")
  if hostVal = [] then head
  else
    match split (· = colon) hostVal with
    | [host] => { head with virtualHost := host, virtualPort := 80 }
    | host :: port :: _ => { head with virtualHost := host, virtualPort := UInt16.ofNat (strtoul port) }
    | [] => { head with virtualPort := 80 }

/-- From version 1.1 on there has to be a host. -/
def prepareServerVersionOnOptions (head : RequestHead) : RequestHead :=
  if 1 ≤ head.requestLine.httpVersion.versionMinor ∧ head.virtualHost = [] then { head with badAnswer := true } else head

/-- The credential of the first option there is; the names stay where there is none. -/
def parseBasicAuth (head : RequestHead) : RequestHead :=
  let basicAuth := { head.basicAuth with bEnabled := false }
  { head with
    basicAuth :=
      if head.headers.exist (ascii "Authorization") then
        match credential (head.headers.getOptionValueStringByName (ascii "Authorization")) with
        | some (user, pass) => .setAuthentication user pass
        | none => basicAuth
      else basicAuth }

def parseUserAgent (head : RequestHead) : RequestHead :=
  if head.headers.exist (ascii "User-Agent") then
    { head with userAgent := head.headers.getOptionRawStringByName (ascii "User-Agent") }
  else head

section
variable (procHTTPClientURI : RequestHead → Bool) (random : Nat → RandomString)

/-- `changeToNextParserOnClientRequest`, where every answer is written. -/
def onClientRequest (head : RequestHead) : Option Settings × RequestHead :=
  if head.requestLine.httpVersion.versionMajor ≠ 1 then (none, { head with badAnswer := true, phase := .answered })
  else if procHTTPClientURI head then (some MIMESubHeader.settings, { head with phase := .headers })
  else (none, { head with phase := .closed })

/-- The part of `changeToNextParserOnClientHeaders` before the content. -/
def onClientHeaders (head : RequestHead) : RequestHead :=
  { head.parseHostOptions.prepareServerVersionOnOptions.parseBasicAuth.parseUserAgent with phase := .finished }

def parse : Parse RequestHead := fun head settings presented =>
  match head.phase with
  | .requestLine =>
    let (status, settings, requestLine) := RequestLine.parse head.requestLine settings presented
    (status, settings, { head with requestLine := requestLine })
  | .headers =>
    match presented with
    | .element parsedBuffer _ =>
      let (status, headers) := head.headers.parse random parsedBuffer
      (status, settings, { head with headers := headers })
    | .direct _ _ => (.getMoreData, settings, head)
  | .answered | .closed | .finished => (.error, settings, head)

def changeToNextParser (head : RequestHead) : Option (Option Settings × RequestHead) :=
  match head.phase with
  | .requestLine => some (head.onClientRequest procHTTPClientURI)
  | .headers => some (none, head.onClientHeaders)
  | .answered | .closed | .finished => none

/-- `procHTTPClientURI` is what a server decides of the request line. -/
def protocol : Protocol RequestHead where
  parse := parse random
  changeToNextParser := changeToNextParser procHTTPClientURI
  fresh := fun _ size => Vector.replicate size 0
  maxTTL := 4096

/-- The head after the writes, up to one that fails or ends it. -/
def received (writes : List Bytes) : RequestHead :=
  ((protocol procHTTPClientURI random).writeAll ⟨some (.new RequestLine.settings), new⟩ writes).2.user

end

end RequestHead

end Mantids.HTTP
