import Mantids.RPC.MethodsManager
import Mantids.RPC.SessionsManager

/-! One request through the web client handler (`webclienthandler.cpp`): the session
it opens, the cookies it answers with and what it does to the session pool. -/

set_option autoImplicit false

namespace Mantids.RPC

open Auth Threads

/-- The response codes of the handler. -/
inductive RetCode where
  | ok
  | temporaryRedirect
  | permanentRedirect
  | badRequest
  | unauthorized
  | forbidden
  | notFound
  | internalServerError
  deriving DecidableEq, Repr

/-! ## The cookie jar of the response -/

/-- `none` for the age is the transient cookie that clears its predecessor. -/
structure Cookie where
  value : String
  path : String
  httpOnly : Bool
  maxAge : Option Nat
  deriving DecidableEq, Repr

abbrev Cookies := Library.Table String Cookie

namespace Cookies

/-- A second cookie of one name is refused. -/
def addCookieVal (cookiesMap : Cookies) (cookieName : String) (cookieValue : Cookie) : Bool × Cookies :=
  match cookiesMap.get cookieName with
  | some _ => (false, cookiesMap)
  | none => (true, cookiesMap.insert cookieName cookieValue)

def addClearSecureCookie (cookiesMap : Cookies) (cookieName path : String) : Cookies :=
  (addCookieVal (cookiesMap.erase cookieName) cookieName ⟨"", path, true, none⟩).2

def setSecureCookie (cookiesMap : Cookies) (cookieName cookieValue : String) (uMaxAge : Nat)
    (path : String) : Cookies :=
  (addCookieVal cookiesMap cookieName ⟨cookieValue, path, true, some uMaxAge⟩).2

end Cookies

/-! ## The request and the server around it -/

structure Authentication where
  sPassword : String
  iPassIDX : PassIndex
  deriving DecidableEq, Repr

/-- The parsed request: the values that its getters return. -/
structure ClientRequest where
  uri : String
  sessionIdCookie : String
  csrfTokenHeader : String
  getVars : String → String
  postVars : String → String

/-- A domain's manager: its authenticator next to what a verdict asks it. -/
structure DomainManager extends Authorizer where
  authenticate : String → Authentication → Reason × List (PassIndex × String)

/-- What a handler is configured with, and what it asks of code outside: the JSON
readers, the web resources, the clock and the random strings. -/
structure Server where
  usingCSRFToken : Bool
  authDomains : String → Option DomainManager
  methodsManager : MethodsManager Unit
  authenticationFromJSON : String → Option Authentication
  multiAuthsFromJSON : String → Option (List Authentication)
  isJSON : String → Bool
  /-- The resource engine for a visitor with a session, and whether it counted as activity. -/
  sessionResource : ClientRequest → WebSession → RetCode × Bool
  /-- Without a session, a call that a page inlines can fault. -/
  publicResource : ClientRequest → Option RetCode
  now : Time
  randoms : Randoms

namespace Server

/-- `Authentication::fromString`; an empty text leaves the defaults. -/
def authenticationFromString (server : Server) (sAuth : String) : Option Authentication :=
  if sAuth = "" then some ⟨"", 0⟩ else server.authenticationFromJSON sAuth

/-- `MultiAuths::setAuthentications`. -/
def multiAuthsFromString (server : Server) (sAuthentications : String) : Option (List Authentication) :=
  if sAuthentications = "" then some [] else server.multiAuthsFromJSON sAuthentications

end Server

/-- The members of a handler. `webSession` is the pointer to the opened session: its key. -/
structure Handler where
  sessionsManager : SessionsManager
  webSession : Option String
  uSessionMaxAge : Nat
  sSessionId : String
  bDestroySession : Bool
  bReleaseSessionHandler : Bool
  cookies : Cookies

namespace Handler

def new (m : SessionsManager) (sSessionId : String) : Handler := ⟨m, none, 0, sSessionId, false, false, ∅⟩

/-- What the `webSession` pointer points at. -/
def current (h : Handler) : Option WebSession :=
  h.webSession.bind fun key => (h.sessionsManager.sessions.get key).bind (·.rdElement)

/-- `authSession` points into the web session. -/
def authSession (h : Handler) : Option Session := h.current.map (·.authSession)

/-- A write through the `webSession` pointer. -/
def modify (h : Handler) (change : WebSession → WebSession) : Handler :=
  match h.webSession with
  | none => h
  | some key => { h with sessionsManager := { h.sessionsManager with
      sessions := h.sessionsManager.sessions.modifyElement key change } }

def updateLastActivity (h : Handler) (now : Time) : Handler :=
  h.modify fun s => { s with authSession := s.authSession.updateLastActivity now }

def sessionOpen (server : Server) (h : Handler) : Handler :=
  match h.sessionsManager.openSession server.now h.sSessionId with
  | (some (_, maxAge), m) =>
    { h with
      sessionsManager := m
      webSession := some h.sSessionId
      uSessionMaxAge := maxAge
      bReleaseSessionHandler := true }
  | (none, m) =>
    { h with
      sessionsManager := m
      webSession := none
      cookies := if h.sSessionId ≠ "" then h.cookies.addClearSecureCookie "sessionId" "/" else h.cookies
      sSessionId := "" }

def sessionRelease (h : Handler) : Handler :=
  if h.bReleaseSessionHandler then
    let cookies :=
      (h.cookies.addCookieVal "jsSessionTimeout" ⟨"1", "/", false, some h.uSessionMaxAge⟩).2
    { h with
      cookies := cookies.setSecureCookie "sessionId" h.sSessionId h.uSessionMaxAge "/"
      sessionsManager := (h.sessionsManager.releaseSession h.sSessionId).2 }
  else h

def sessionDestroy (h : Handler) : Handler :=
  if h.bDestroySession then
    let cookies := h.cookies.addClearSecureCookie "jsSessionTimeout" "/"
    { h with
      cookies := cookies.addClearSecureCookie "sessionId" "/"
      sessionsManager := (h.sessionsManager.destroySession h.sSessionId).2 }
  else h

/-! ## Authentication -/

/-- The reason and the required indexes of `authenticate` in a domain that may not exist. -/
def authenticateIn (server : Server) (userName domainName : String) (authData : Authentication) :
    Reason × List (PassIndex × String) :=
  match server.authDomains domainName with
  | none => (.invalidDomain, [])
  | some domainAuthenticator => domainAuthenticator.authenticate userName authData

/-- The authentication session that a first login builds for the pool. -/
def loginSession (server : Server) (userName domainName : String) (passIndex : PassIndex) (authReason : Reason)
    (stAccountPassIndexesUsedForLogin : List (PassIndex × String)) : Session :=
  let lAuthSession := { Session.new "" server.now server.now with isPersistentSession := true }
  let lAuthSession :=
    lAuthSession.registerPersistentAuthentication server.now userName domainName passIndex authReason
  { lAuthSession with requiredLoginIdxs := stAccountPassIndexesUsedForLogin }

/-- `persistentAuthentication` without a session: the reason, and the id of a new session or "". -/
def createAuthentication (server : Server) (userName domainName : String) (authData : Authentication)
    (h : Handler) : Reason × String × Handler :=
  if authData.iPassIDX ≠ 0 then (.internalError, "", h)
  else
    let (authReason, passIndexes) := authenticateIn server userName domainName authData
    if isPasswordAuthenticated authReason then
      let lAuthSession := loginSession server userName domainName authData.iPassIDX authReason passIndexes
      let (sessionId, m) := h.sessionsManager.createWebSession lAuthSession server.randoms
      (authReason, sessionId, { h with sessionsManager := m })
    else (authReason, "", h)

/-- `persistentAuthentication` on the session the handler has open. -/
def registerAuthentication (server : Server) (lAuthSession : Session) (authData : Authentication)
    (h : Handler) : Reason × String × Handler :=
  let (authReason, _) :=
    authenticateIn server lAuthSession.authUser lAuthSession.authDomain authData
  if isPasswordAuthenticated authReason then
    (authReason, lAuthSession.sessionId, h.modify fun s =>
      { s with authSession := (s.authSession.registerPersistentAuthentication server.now
          lAuthSession.authUser lAuthSession.authDomain authData.iPassIDX authReason) })
  else (authReason, "", h)

/-! ## The session requests -/

def procJAPISessionLOGIN (server : Server) (request : ClientRequest) (auth : Authentication) (h : Handler) :
    RetCode × Handler :=
  let (_, sessionId, h) :=
    createAuthentication server (request.postVars "user") (request.postVars "domain") auth h
  let h := { h with sSessionId := sessionId }
  if h.sSessionId ≠ "" then
    match h.sessionsManager.openSession server.now h.sSessionId with
    | (none, m) => (.unauthorized, { h with sessionsManager := m })
    | (some (_, uMaxAge), m) =>
      let cookies :=
        if server.usingCSRFToken then h.cookies
        else h.cookies.setSecureCookie "sessionId" h.sSessionId uMaxAge ""
      (.ok, { h with
        cookies := cookies
        sessionsManager := (m.releaseSession h.sSessionId).2 })
  else (.unauthorized, h)

def procJAPISessionPOSTLOGIN (server : Server) (auth : Authentication) (h : Handler) : RetCode × Handler :=
  match h.authSession with
  | none => (.unauthorized, h)
  | some authSession =>
    let (authReason, sessionId, h) := registerAuthentication server authSession auth h
    let h := { h with sSessionId := sessionId }
    if isPasswordAuthenticated authReason then (.ok, h)
    else (.unauthorized, { h with bDestroySession := true })

def procJAPISessionCHPASSWD (server : Server) (request : ClientRequest) (oldAuth : Authentication)
    (h : Handler) : RetCode × Handler :=
  match h.authSession with
  | none => (.unauthorized, h)
  | some authSession =>
    match server.authenticationFromString (request.postVars "newAuth") with
    | none => (.badRequest, h)
    | some newAuth =>
      if oldAuth.iPassIDX ≠ newAuth.iPassIDX then (.badRequest, h)
      else
        match server.authDomains authSession.authDomain with
        | none => (.unauthorized, h)
        | some domainAuthenticator =>
          let (authReason, _) := domainAuthenticator.authenticate authSession.authUser
            ⟨oldAuth.sPassword, newAuth.iPassIDX⟩
          if isPasswordAuthenticated authReason then (.ok, h)
          else (.unauthorized, { h with bDestroySession := true })

/-- The main password is tested, whatever index the request carries. -/
def procJAPISessionTESTPASSWD (server : Server) (auth : Authentication) (h : Handler) : RetCode × Handler :=
  match h.authSession with
  | none => (.unauthorized, h)
  | some authSession =>
    match server.authDomains authSession.authDomain with
    | none => (.unauthorized, h)
    | some domainAuthenticator =>
      let (authReason, _) := domainAuthenticator.authenticate authSession.authUser ⟨auth.sPassword, 0⟩
      if isPasswordAuthenticated authReason then (.ok, h)
      else (.unauthorized, { h with bDestroySession := true })

def procJAPISessionPASSWDLIST (server : Server) (h : Handler) : RetCode :=
  match h.authSession with
  | none => .unauthorized
  | some authSession =>
    match server.authDomains authSession.authDomain with
    | none => .internalServerError
    | some _ => .ok

def procJAPISessionCSRFTOKEN (server : Server) (h : Handler) : RetCode × Handler :=
  (.ok, h.updateLastActivity server.now)

/-- The second opening, with the posted id. -/
def reopen (server : Server) (request : ClientRequest) (h : Handler) : Handler :=
  if h.sSessionId = "" ∧ server.usingCSRFToken ∧ request.getVars "mode" = "AUTHCSRF" then
    sessionOpen server { h with sSessionId := request.postVars "sessionId" }
  else h

/-- The token check in front of the session requests: whether they may go on, and the
code and the handler with which an `AUTHCSRF` confirmation leaves it. -/
def checkCSRF (server : Server) (request : ClientRequest) (h : Handler) : Bool × RetCode × Handler :=
  if server.usingCSRFToken then
    match h.current with
    | some webSession =>
      if !webSession.bAuthTokenConfirmed ∧ request.getVars "mode" = "AUTHCSRF" then
        let h' := h.modify fun s => s.confirmAuthCSRFToken request.csrfTokenHeader
        if (webSession.confirmAuthCSRFToken request.csrfTokenHeader).bAuthTokenConfirmed then
          (false, .ok,
            { h' with cookies := h'.cookies.setSecureCookie "sessionId" h'.sSessionId h'.uSessionMaxAge "" })
        else (false, .unauthorized, h')
      else if webSession.bAuthTokenConfirmed ∧ webSession.validateCSRFToken request.csrfTokenHeader then
        (true, .notFound, h)
      else (webSession.bAuthTokenConfirmed && request.getVars "mode" = "CSRFTOKEN", .notFound, h)
    | none => (request.getVars "mode" = "LOGIN", .notFound, h)
  else (true, .notFound, h)

/-- The dispatch on the mode, once the token is accepted. -/
def procMode (server : Server) (request : ClientRequest) (credentials : Authentication) (h : Handler) :
    RetCode × Handler :=
  match h.current with
  | none =>
    if request.getVars "mode" = "LOGIN" ∧
        (!server.usingCSRFToken ∨ request.csrfTokenHeader = "00112233445566778899") then
      procJAPISessionLOGIN server request credentials h
    else (.notFound, h)
  | some webSession =>
    let confirmed := webSession.bAuthTokenConfirmed
    let loggedIn := webSession.authSession.getIsFullyLoggedIn server.now .allowExpiredPasswords
    if confirmed ∧ request.getVars "mode" = "POSTLOGIN" then procJAPISessionPOSTLOGIN server credentials h
    else if confirmed ∧ loggedIn ∧ request.getVars "mode" = "CHPASSWD" then
      procJAPISessionCHPASSWD server request credentials h
    else if confirmed ∧ loggedIn ∧ request.getVars "mode" = "TESTPASSWD" then
      procJAPISessionTESTPASSWD server credentials h
    else if confirmed ∧ loggedIn ∧ request.getVars "mode" = "PASSWDLIST" then
      (procJAPISessionPASSWDLIST server h, h)
    else if confirmed ∧ request.getVars "mode" = "CSRFTOKEN" then procJAPISessionCSRFTOKEN server h
    else if confirmed ∧ request.getVars "mode" = "AUTHINFO" then (.ok, h)
    else if request.getVars "mode" = "LOGOUT" then (.ok, { h with bDestroySession := true })
    else (.notFound, h)

def procOpened (server : Server) (request : ClientRequest) (credentials : Authentication) (h : Handler) :
    RetCode × Handler :=
  match checkCSRF server request h with
  | (true, _, h) => procMode server request credentials h
  | (false, code, h) => (code, h)

def procJAPISession (server : Server) (request : ClientRequest) (credentials : Authentication) (h : Handler) :
    RetCode × Handler :=
  procOpened server request credentials (reopen server request h)

/-! ## Method execution and the request as a whole -/

def csrfValidate (server : Server) (request : ClientRequest) (h : Handler) : Bool :=
  !server.usingCSRFToken ||
    h.current.any fun webSession =>
      webSession.bAuthTokenConfirmed && webSession.validateCSRFToken request.csrfTokenHeader

/-- `none` is the fault of a verdict asked for a null session. -/
def procJAPIExec (server : Server) (request : ClientRequest) (extraAuths : List Authentication) (h : Handler) :
    Option RetCode × Handler :=
  let methodName := request.getVars "method"
  let userName := (h.authSession.map (·.authUser)).getD (request.postVars "user")
  let domainName := (h.authSession.map (·.authDomain)).getD (request.postVars "domain")
  if !csrfValidate server request h then (some .notFound, h)
  else if request.postVars "payload" ≠ "" ∧ !server.isJSON (request.postVars "payload") then
    (some .badRequest, h)
  else if server.methodsManager.getMethodRequireFullAuth methodName ∧ h.authSession.isNone then
    (some .notFound, h)
  else
    let extraTmpIndexes := (extraAuths.filter fun auth =>
      isPasswordAuthenticated (authenticateIn server userName domainName auth).1).map (·.iPassIDX)
    match server.authDomains domainName with
    | none => (some .notFound, h)
    | some authorizer =>
      match server.methodsManager.validateRPCMethodPerms authorizer.toAuthorizer h.authSession server.now
          methodName extraTmpIndexes with
      | none => (none, h)
      | some ⟨.ok, _, _⟩ => (some .ok, h.updateLastActivity server.now)
      | some ⟨.notAuthorized, _, _⟩ => (some .unauthorized, h)
      | some ⟨.methodNotFound, _, _⟩ => (some .notFound, h)

def procResourceFile (server : Server) (request : ClientRequest) (h : Handler) : Option RetCode × Handler :=
  match h.current with
  | none => (server.publicResource request, h)
  | some webSession =>
    let (ret, visited) := server.sessionResource request webSession
    (some ret, if visited then h.updateLastActivity server.now else h)

/-- The URI after the rewriting of the deprecated `/api`. -/
def requestURI (request : ClientRequest) : String :=
  if request.uri = "/api" then
    if request.getVars "mode" = "EXEC" then "/japi_exec"
    else if request.getVars "mode" = "VERSION" then "/japi_version"
    else "/japi_session"
  else request.uri

def dispatch (server : Server) (request : ClientRequest) (extraCredentials : List Authentication)
    (credentials : Authentication) (h : Handler) : Option RetCode × Handler :=
  if requestURI request = "/japi_exec" then procJAPIExec server request extraCredentials h
  else if requestURI request = "/japi_version" then (some .ok, h)
  else if requestURI request = "/japi_session" then
    let (ret, h) := procJAPISession server request credentials h
    (some ret, h)
  else procResourceFile server request h

/-- A faulting request does not reach the clean-up. -/
def procHTTPClientContent (server : Server) (request : ClientRequest) (m : SessionsManager) :
    Option RetCode × Handler :=
  let h := Handler.new m request.sessionIdCookie
  match server.multiAuthsFromString (request.postVars "extraAuth") with
  | none => (some .badRequest, h)
  | some extraCredentials =>
    match server.authenticationFromString (request.postVars "auth") with
    | none => (some .badRequest, h)
    | some credentials =>
      match dispatch server request extraCredentials credentials (sessionOpen server h) with
      | (none, h) => (none, h)
      | (some ret, h) => (some ret, sessionDestroy (sessionRelease h))

end Handler

end Mantids.RPC
