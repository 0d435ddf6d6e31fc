import Mantids.Protocols.HeaderLines

/-! Cookies: the jar of the client (`req_cookies.cpp`), the jar of the server (`rsp_cookies.cpp`, `hdr_cookie.cpp`),
and what both ends read of their headers (`httpv1_base.h`, `httpv1_client.cpp`). -/

set_option autoImplicit false

namespace Mantids.HTTP

open Memory Library MIME

/-! ## Requests -/

abbrev CookiesClientSide := Multimap Bytes Bytes

namespace CookiesClientSide

/-- `operator[]` on the map. -/
def addCookieVal (jar : CookiesClientSide) (cookieName cookieValue : Bytes) : CookiesClientSide :=
  (jar.erase cookieName).insert cookieName cookieValue

/-- What separates cookies stands before the first one, and nothing before the others. -/
def toStringFrom : (first : Bool) → List (Bytes × Bytes) → Bytes
  | _, [] => []
  | first, (name, value) :: rest =>
    (if first then [semicolon, 32] else []) ++ name ++ equalsSign :: value ++ toStringFrom false rest

def toString (jar : CookiesClientSide) : Bytes := toStringFrom true jar.entries

def putOnHeaders (random : Nat → RandomString) (jar : CookiesClientSide) (headers : MIMESubHeader) : MIMESubHeader :=
  (headers.add random (ascii "Cookie") jar.toString 0).2

/-- The value is what a C string has of what is behind the sign. -/
def parseCookie (jar : CookiesClientSide) (cookie : Bytes) : CookiesClientSide :=
  match cookie.dropWhile (· ≠ equalsSign) with
  | [] => jar
  | _ :: cookieValue =>
    jar.addCookieVal (MIME.trim (cookie.takeWhile (· ≠ equalsSign))) (MIME.trim (cString cookieValue))

def parseFromHeaders (jar : CookiesClientSide) (cookiesStr : Bytes) : CookiesClientSide :=
  (split (· = semicolon) cookiesStr).foldl parseCookie jar

end CookiesClientSide

/-- `HTTPv1_Base::Request::getCookie`. -/
def getCookie (headers : MIMESubHeader) (sCookieName : Bytes) : Bytes :=
  match headers.getOptionByName (ascii "Cookie") with
  | none => []
  | some cookiesSubVars => cookiesSubVars.getSubVar sCookieName

/-! ## Responses -/

/-- `Common::Date` as texts, which are those of the locale and of its time zone. -/
structure DateTexts where
  toString : Int → Bytes
  fromString : Bytes → Int
  plain : ∀ rawTime, ∀ byte ∈ toString rawTime, byte ≠ 13 ∧ byte ≠ 0

inductive SameSitePolicy where
  | none
  | lax
  | strict
  deriving DecidableEq, Repr

/-- The largest `maxAge` stands for none, and so does a time of zero. -/
structure Cookie where
  value : Bytes
  expires : Int
  maxAge : UInt32
  domain : Bytes
  path : Bytes
  secure : Bool
  httpOnly : Bool
  sameSite : SameSitePolicy
  deriving DecidableEq

namespace Cookie

def setDefaults : Cookie := ⟨[], 0, 2 ^ 32 - 1, [], [], false, false, .lax⟩

section
variable (dates : DateTexts)

def toSetCookieString (cookie : Cookie) (cookieName : Bytes) : Bytes :=
  cookieName ++ [equalsSign] ++ cookie.value ++ ascii "; " ++
    (if cookie.expires ≠ 0 then ascii "Expires=" ++ dates.toString cookie.expires ++ ascii "; " else []) ++
    (if cookie.maxAge ≠ 2 ^ 32 - 1 then ascii "Max-Age=" ++ MIME.decimal cookie.maxAge.toNat ++ ascii "; " else []) ++
    (if cookie.secure then ascii "Secure; " else []) ++ (if cookie.httpOnly then ascii "HttpOnly; " else []) ++
    (if cookie.domain ≠ [] then ascii "Domain=" ++ cookie.domain ++ ascii "; " else []) ++
    (if cookie.path ≠ [] then ascii "Path=" ++ cookie.path ++ ascii "; " else []) ++
    match cookie.sameSite with
    | .none => ascii "SameSite=None; "
    | .strict => ascii "SameSite=Strict; "
    | .lax => ascii "SameSite=Lax; "

/-- A part without a sign is a name. -/
def getVarNameAndValue (var : Bytes) : Bytes × Bytes :=
  match var.dropWhile (· ≠ equalsSign) with
  | [] => (MIME.trim var, [])
  | _ :: value => (MIME.trim (var.takeWhile (· ≠ equalsSign)), MIME.trim (cString value))

def setOption (cookie : Cookie) (param : Bytes) : Cookie :=
  let var := getVarNameAndValue param
  let varNameUpper := toUpper var.1
  if varNameUpper = ascii "EXPIRES" then { cookie with expires := dates.fromString var.2 }
  else if varNameUpper = ascii "MAX-AGE" then { cookie with maxAge := UInt32.ofNat (strtoul var.2) }
  else if varNameUpper = ascii "SECURE" then { cookie with secure := true }
  else if varNameUpper = ascii "HTTPONLY" then { cookie with httpOnly := true }
  else if varNameUpper = ascii "DOMAIN" then { cookie with domain := var.2 }
  else if varNameUpper = ascii "PATH" then { cookie with path := var.2 }
  else if varNameUpper = ascii "SAMESITE" then
    { cookie with
      sameSite :=
        if toUpper var.2 = ascii "LAX" then .lax else if toUpper var.2 = ascii "STRICT" then .strict else .none }
  else cookie

/-- The first part is the name with the value. -/
def fromSetCookieString (setCookieValue : Bytes) : Bytes × Cookie :=
  match split (· = semicolon) setCookieValue with
  | [] => ([], setDefaults)
  | first :: params =>
    let var := getVarNameAndValue first
    (var.1, params.foldl (setOption dates) { setDefaults with value := var.2 })

end

end Cookie

abbrev CookiesServerSide := Multimap Bytes Cookie

namespace CookiesServerSide

section
variable (random : Nat → RandomString) (dates : DateTexts)

def getCookieByName (jar : CookiesServerSide) (cookieName : Bytes) : Option Cookie := jar.find cookieName

/-- A cookie that is there stays as it is. -/
def addCookieVal (jar : CookiesServerSide) (cookieName : Bytes) (cookieValue : Cookie) : Bool × CookiesServerSide :=
  match jar.find cookieName with
  | some _ => (false, jar)
  | none => (true, jar.insert cookieName cookieValue)

def putOnHeaders (jar : CookiesServerSide) (headers : MIMESubHeader) : MIMESubHeader :=
  jar.entries.foldl
    (fun headers cookie => (headers.add random (ascii "Set-Cookie") (cookie.2.toSetCookieString dates cookie.1) 0).2) headers

def parseCookie (jar : CookiesServerSide) (cookieStr : Bytes) : Bool × CookiesServerSide :=
  let (cookieName, cookieValue) := Cookie.fromSetCookieString dates cookieStr
  if cookieName = [] then (false, jar) else jar.addCookieVal cookieName cookieValue

/-- `HTTPv1_Client::parseHeaders2ServerCookies`, on the cookies that the response has so far. -/
def parseHeaders2ServerCookies (headers : MIMESubHeader) (jar : CookiesServerSide) : CookiesServerSide :=
  (headers.getOptionsByName []).foldl (fun jar serverCookie => (jar.parseCookie dates serverCookie.origValue).2) jar

end

end CookiesServerSide

end Mantids.HTTP
