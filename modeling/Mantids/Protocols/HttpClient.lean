import Mantids.Protocols.Cookies
import Mantids.Protocols.HttpContent

/-! The request of a client (`httpv1_client.cpp`): how it is put together and what is streamed of it. -/

set_option autoImplicit false

namespace Mantids.HTTP

open Memory Memory.Streams Library MIME

/-- `HTTPv1_Base::BasicAuth`. -/
structure BasicAuth where
  user : Bytes
  pass : Bytes
  bEnabled : Bool
  deriving DecidableEq

abbrev colon : UInt8 := 58

namespace BasicAuth

def new : BasicAuth := ⟨[], [], false⟩

def setAuthentication (user pass : Bytes) : BasicAuth := ⟨user, pass, true⟩

end BasicAuth

/-! ## The content of a request -/

inductive DataType where
  | contentTypeBin
  | contentTypeMime
  | contentTypeUrl
  deriving DecidableEq, Repr

/-- What a content streams: one of its own containers, or an object with its `size()` and what is streamed of it. -/
inductive OutStream where
  | binDataContainer
  | urlPostVars
  | multiPartVars
  | object (size : Fin (2 ^ 64)) (streamTo : TransmitionMode → Bytes)

structure RequestContent where
  transmitionMode : TransmitionMode
  containerType : DataType
  outStream : OutStream
  binDataContainer : BChunks
  urlPostVars : Multimap Bytes (List Bytes)
  multiPartVars : Message

namespace RequestContent

def new (boundary : Bytes) : RequestContent :=
  ⟨.transmitModeConnectionClose, .contentTypeBin, .binDataContainer, .empty .default, .empty, .new boundary⟩

def isDefaultStreamableObj (content : RequestContent) : Bool :=
  match content.outStream with
  | .binDataContainer | .urlPostVars | .multiPartVars => true
  | .object _ _ => false

def setContainerType (content : RequestContent) (value : DataType) : RequestContent :=
  let content := { content with containerType := value }
  if content.isDefaultStreamableObj then
    { content with
      outStream :=
        match value with
        | .contentTypeMime => .multiPartVars
        | .contentTypeUrl => .urlPostVars
        | .contentTypeBin => .binDataContainer }
  else content

/-- The variables have the size of any `StreamableObject`, which stands for none. -/
def getStreamSize (content : RequestContent) : Nat :=
  match content.outStream with
  | .binDataContainer => content.binDataContainer.size
  | .urlPostVars | .multiPartVars => 2 ^ 64 - 1
  | .object size _ => size

/-- The variables as the modes without chunks stream them; a client never comes to that. -/
def stream (content : RequestContent) : Bytes :=
  match content.outStream with
  | .binDataContainer => streamContent content.transmitionMode content.binDataContainer
  | .urlPostVars => UrlVars.streamTo content.urlPostVars
  | .multiPartVars => content.multiPartVars.streamTo
  | .object _ streamTo => streamTo content.transmitionMode

end RequestContent

/-! ## The client -/

structure HTTPv1Client where
  requestLine : RequestLine (Multimap Bytes (List Bytes))
  headers : MIMESubHeader
  content : RequestContent
  basicAuth : BasicAuth
  userAgent : Bytes
  virtualHost : Bytes
  virtualPort : UInt16
  clientCookies : CookiesClientSide

namespace HTTPv1Client

def new (boundary : Bytes) : HTTPv1Client where
  requestLine := ⟨ascii "GET", [], [], ⟨1, 0⟩, .empty⟩
  headers := .new
  content := .new boundary
  basicAuth := .new
  userAgent := ascii "libMantids/0.4"
  virtualHost := []
  virtualPort := 80
  clientCookies := .empty

/-- A request with a host is of version 1.1 at least. -/
def setClientRequest (client : HTTPv1Client) (hostName uriPath : Bytes) : HTTPv1Client :=
  let version := client.requestLine.httpVersion
  let version := if hostName ≠ [] ∧ version.versionMinor < 1 then { version with versionMinor := 1 } else version
  { client with
    requestLine := { client.requestLine with httpVersion := version, requestURI := uriPath }
    virtualHost := hostName }

/-- What both kinds of requests with variables share. -/
def prepareRequestAsPost (client : HTTPv1Client) (containerType : DataType) (hostName uriPath : Bytes) : HTTPv1Client :=
  let client := client.setClientRequest hostName uriPath
  { client with
    requestLine := { client.requestLine with requestMethod := ascii "POST" }
    content := client.content.setContainerType containerType }

def prepareRequestAsPostMIME : HTTPv1Client → Bytes → Bytes → HTTPv1Client := (prepareRequestAsPost · .contentTypeMime)

def prepareRequestAsPostURL : HTTPv1Client → Bytes → Bytes → HTTPv1Client := (prepareRequestAsPost · .contentTypeUrl)

/-- `URLVars::addVar` on the variables of the content. -/
def addPostURLVar (client : HTTPv1Client) (var : Bytes × List Bytes) : HTTPv1Client :=
  { client with
    content := { client.content with
      urlPostVars :=
        if var.1 = [] then client.content.urlPostVars else client.content.urlPostVars.insert (toUpper var.1) var.2 } }

/-- `MIME_Message::addStringVar` on the variables of the content. -/
def addPostMIMEVar (client : HTTPv1Client) (var : Bytes × Bytes) : HTTPv1Client :=
  { client with
    content := { client.content with multiPartVars := (client.content.multiPartVars.addStringVar var.1 var.2).2 } }

section
variable (random : Nat → RandomString) (client : HTTPv1Client)

/-- The headers that `streamClientHeaders` streams, of a content whose size is known. -/
def clientHeaders : MIMESubHeader :=
  let headers := (client.headers.remove (ascii "Connection")).replace random (ascii "Content-Length")
    (MIME.decimal client.content.getStreamSize)
  let headers := client.clientCookies.putOnHeaders random headers
  let headers :=
    if client.basicAuth.bEnabled then
      headers.replace random (ascii "Authentication")
        (ascii "Basic " ++ Helpers.Encoders.toBase64 (client.basicAuth.user ++ colon :: client.basicAuth.pass))
    else headers
  let headers := headers.replace random (ascii "User-Agent") client.userAgent
  if client.virtualHost ≠ [] then
    headers.replace random (ascii "Host")
      (client.virtualHost ++ if client.virtualPort = 80 then [] else colon :: decimal client.virtualPort)
  else headers

/-- Headers are streamed for a content of known size only, and behind them the content. -/
def initProtocol : Bool × Bytes :=
  if client.content.getStreamSize = 2 ^ 64 - 1 then (false, client.requestLine.stream)
  else (true, client.requestLine.stream ++ (client.clientHeaders random).stream ++ client.content.stream)

end

/-! ## Requests with variables -/

/-- A request with variables, each of them put by the client. -/
def postURLRequest (client : HTTPv1Client) (hostName uriPath : Bytes) (vars : List (Bytes × List Bytes)) : HTTPv1Client :=
  vars.foldl addPostURLVar (client.prepareRequestAsPostURL hostName uriPath)

def postMIMERequest (client : HTTPv1Client) (hostName uriPath : Bytes) (vars : List (Bytes × Bytes)) : HTTPv1Client :=
  vars.foldl addPostMIMEVar (client.prepareRequestAsPostMIME hostName uriPath)

/-- Variables are put into containers that the content goes on streaming. -/
theorem outStream_foldl {V : Type} {put : HTTPv1Client → V → HTTPv1Client}
    (kept : ∀ client var, (put client var).content.outStream = client.content.outStream) (vars : List V)
    (client : HTTPv1Client) : (vars.foldl put client).content.outStream = client.content.outStream := by
  induction vars generalizing client with
  | nil => rfl
  | cons var rest ih => rw [List.foldl_cons, ih, kept]

theorem initProtocol_of_unknown (random : Nat → RandomString) {client : HTTPv1Client}
    (unknown : client.content.getStreamSize = 2 ^ 64 - 1) :
    client.initProtocol random = (false, client.requestLine.stream) := by
  unfold initProtocol
  rw [if_pos unknown]

section
variable (random : Nat → RandomString) {client : HTTPv1Client} (own : client.content.isDefaultStreamableObj = true)
  (hostName uriPath : Bytes)
include own

theorem outStream_prepareRequestAsPost (containerType : DataType) :
    (client.prepareRequestAsPost containerType hostName uriPath).content.outStream =
      match containerType with
      | .contentTypeMime => .multiPartVars
      | .contentTypeUrl => .urlPostVars
      | .contentTypeBin => .binDataContainer := by
  have default : RequestContent.isDefaultStreamableObj { client.content with containerType := containerType } = true := own
  unfold prepareRequestAsPost setClientRequest RequestContent.setContainerType
  dsimp only
  rw [if_pos default]

/-- No request with variables is streamed: it ends behind the request line. -/
theorem post_not_streamed (urlVars : List (Bytes × List Bytes)) (mimeVars : List (Bytes × Bytes)) :
    (client.postURLRequest hostName uriPath urlVars).initProtocol random =
        (false, (client.postURLRequest hostName uriPath urlVars).requestLine.stream) ∧
      (client.postMIMERequest hostName uriPath mimeVars).initProtocol random =
        (false, (client.postMIMERequest hostName uriPath mimeVars).requestLine.stream) := by
  constructor
  · apply initProtocol_of_unknown
    have same := outStream_foldl (fun _ _ => rfl : ∀ client var, (addPostURLVar client var).content.outStream = _) urlVars
      (client.prepareRequestAsPostURL hostName uriPath)
    have vars := outStream_prepareRequestAsPost own hostName uriPath .contentTypeUrl
    unfold RequestContent.getStreamSize
    rw [postURLRequest, same, prepareRequestAsPostURL, vars]
  · apply initProtocol_of_unknown
    have same := outStream_foldl (fun _ _ => rfl : ∀ client var, (addPostMIMEVar client var).content.outStream = _) mimeVars
      (client.prepareRequestAsPostMIME hostName uriPath)
    have vars := outStream_prepareRequestAsPost own hostName uriPath .contentTypeMime
    unfold RequestContent.getStreamSize
    rw [postMIMERequest, same, prepareRequestAsPostMIME, vars]

end

def letters : RandomString := .letters

/-- Requests of a new client with the variable `a`. -/
def postedURL : HTTPv1Client :=
  (new (ascii "boundary")).postURLRequest (ascii "localhost") (ascii "/") [(ascii "a", [ascii "1"])]

def postedMIME : HTTPv1Client :=
  (new (ascii "boundary")).postMIMERequest (ascii "localhost") (ascii "/") [(ascii "a", ascii "1")]

theorem post_not_streamed_new :
    postedURL.initProtocol (fun _ => letters) = (false, postedURL.requestLine.stream) ∧
      postedMIME.initProtocol (fun _ => letters) = (false, postedMIME.requestLine.stream) :=
  post_not_streamed (fun _ => letters) rfl _ _ _ _

/-- Neither of the two is streamed. -/
theorem posts_fail : ¬(postedURL.initProtocol fun _ => letters).1 = true ∧
    ¬(postedMIME.initProtocol fun _ => letters).1 = true := by
  decide +kernel

end HTTPv1Client

end Mantids.HTTP
