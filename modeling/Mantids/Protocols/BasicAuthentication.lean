import Mantids.Protocols.CookieAgreement
import Mantids.Protocols.HeadReading

/-! Which credentials a server has of the request of a client, and of any request. -/

set_option autoImplicit false

namespace Mantids.HTTP

open Memory Memory.Streams Library MIME

/-! ## Credentials in a value -/

/-- `Basic`, blanks, and the encoded user name and password, with the colon between them. -/
def WellFormed (origValue : Bytes) : Prop :=
  ∃ blanks user pass, (∀ byte ∈ blanks, byte = 32) ∧ colon ∉ user ∧ MIME.trim origValue =
    ascii "Basic" ++ 32 :: blanks ++ Helpers.Encoders.toBase64 (user ++ colon :: pass)

namespace HTTPv1Client

/-- Texts without line breaks, and headers of which each makes a line of its own. -/
structure Plain (client : HTTPv1Client) : Prop where
  method : ¬RequestLine.crlf <:+: client.requestLine.requestMethod
  uri : ¬RequestLine.crlf <:+: client.requestLine.requestURI
  headers : client.headers.Proper
  count : client.headers.maxOptions = 32
  cookies : PlainText client.clientCookies.toString
  userAgent : PlainText client.userAgent
  virtualHost : PlainText client.virtualHost

/-- The names that the client gives its headers. -/
def clientNames : List Bytes :=
  [ascii "Connection", ascii "Content-Length", ascii "Cookie", ascii "Authentication", ascii "User-Agent", ascii "Host"]

theorem properField_client {name value : Bytes} (own : name ∈ clientNames) (plain : PlainText value) :
    ProperField name value := by
  have each : ∀ name ∈ clientNames, (∃ first rest, name = first :: rest ∧ first ≠ 32 ∧ first ≠ 9) ∧
      ∀ byte ∈ name, byte ≠ 58 ∧ byte ≠ 13 := by
    have starts : ∀ name ∈ clientNames, name.head?.all (fun first => first ≠ 32 && first ≠ 9) = true ∧ name ≠ [] := by
      decide
    intro name own
    refine ⟨?_, ?_⟩
    · cases name with
      | nil => exact absurd rfl (starts [] own).2
      | cons first rest =>
        have here := (starts _ own).1
        simp only [List.head?_cons, Option.all_some, Bool.and_eq_true, decide_eq_true_eq] at here
        exact ⟨first, rest, rfl, here.1, here.2⟩
    · revert name
      decide
  exact ⟨(each name own).1, (each name own).2, plain⟩

/-- Proper headers with the client's own authorization. -/
structure Carrying (client : HTTPv1Client) (headers : MIMESubHeader) : Prop where
  proper : headers.Proper
  count : headers.maxOptions = 32
  authorization : headers.headers.values (ascii "AUTHORIZATION") =
    client.headers.headers.values (ascii "AUTHORIZATION")

section
variable (random : Nat → RandomString) {client : HTTPv1Client} {headers : MIMESubHeader}
  (carrying : Carrying client headers) {name value : Bytes} (own : name ∈ clientNames)
include own

theorem other_name : ascii "AUTHORIZATION" ≠ toUpper name := by
  revert own
  revert name
  decide

include carrying

theorem Carrying.remove : Carrying client (headers.remove name) where
  proper := carrying.proper.remove name
  count := carrying.count
  authorization := (MIMESubHeader.values_remove_other headers (other_name own)).trans carrying.authorization

theorem Carrying.add (plain : PlainText value) : Carrying client (headers.add random name value 0).2 where
  proper := carrying.proper.add random (properField_client own plain)
  count := (MIMESubHeader.maxOptions_add random headers name value).trans carrying.count
  authorization :=
    (MIMESubHeader.values_add_other random headers value (other_name own)).trans carrying.authorization

theorem Carrying.replace (plain : PlainText value) : Carrying client (headers.replace random name value) :=
  (carrying.remove own).add random own plain

end

/-- What the client's server needs of the rest of a request to read its head. -/
def Readable (procHTTPClientURI : RequestHead → Bool) (random : Nat → RandomString) (client : HTTPv1Client) : Prop :=
  client.content.getStreamSize ≠ 2 ^ 64 - 1 ∧ client.requestLine.stream.length ≤ RequestLine.maxURLSize ∧
    (∃ requestLine, RequestHead.Accepted procHTTPClientURI client.requestLine requestLine) ∧
    ∀ line ∈ (client.clientHeaders random).lines, line.length + MIME.crlf.length ≤ 8 * 1024

/-- The request is streamed and, however it arrives, the server has the credentials of it. -/
def Agrees (procHTTPClientURI : RequestHead → Bool) (random : Nat → RandomString) (client : HTTPv1Client) : Prop :=
  (client.initProtocol random).1 = true ∧ ∀ (serverRandom : Nat → RandomString) (writes : List Bytes),
    (∀ buf ∈ writes, buf ≠ []) → writes.flatten = (client.initProtocol random).2 →
      (RequestHead.received procHTTPClientURI serverRandom writes).basicAuth =
        .setAuthentication client.basicAuth.user client.basicAuth.pass

end HTTPv1Client

namespace RequestHead

section
variable (procHTTPClientURI : RequestHead → Bool) (random : Nat → RandomString) (writes : List Bytes)

/-- One of the options is a well-formed credential. -/
def Carries (headers : MIMESubHeader) : Prop :=
  ∃ option ∈ headers.getOptionsByName (ascii "Authorization"), WellFormed option.origValue

end

end RequestHead

/-! ## When both agree -/

namespace HTTPv1Client

section
variable (procHTTPClientURI : RequestHead → Bool) (random : Nat → RandomString) {client : HTTPv1Client}
  (plain : client.Plain)
include plain

end

end HTTPv1Client

end Mantids.HTTP
