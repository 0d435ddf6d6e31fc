import Mantids.Library.Pairing
import Mantids.RPC.WebClientHandler

/-! The domains that a request opens and releases (`webclienthandler.cpp`), in the order of the calls.
An opening that finds no domain is no use of one. -/

set_option autoImplicit false

namespace Mantids.RPC

open Library Auth

/-- What `procResource_File` is configured with, and what it finds for a URI. -/
structure WebResources where
  resourcesLocalPath : String
  /-- The URI leads to a file that is no directory. -/
  localFile : ClientRequest → Bool
  useHTMLIEngine : Bool
  /-- The response has got the type `text/html`. -/
  isHTML : ClientRequest → Bool
  /-- The functions that the page calls in its place, with their texts; nothing where it cannot be read. -/
  inlineFunctions : ClientRequest → Option (List (String × String))

namespace DomainCalls

/-- The uses, and whether a null session is asked for its user at their end. -/
structure Calls where
  uses : List (Use String)
  faulted : Bool

def Calls.done (uses : List (Use String)) : Calls := ⟨uses, false⟩

section
variable (server : Server) (web : WebResources) (request : ClientRequest)

def openDomain (domainName : String) : List (Use String) :=
  match server.authDomains domainName with
  | none => []
  | some _ => [.opens domainName]

/-- Where the domain is released before the function goes on. -/
def openAndRelease (domainName : String) : List (Use String) :=
  match server.authDomains domainName with
  | none => []
  | some _ => [.opens domainName, .releases domainName]

def temporaryAuthentication (domainName : String) (_authData : Authentication) : List (Use String) :=
  openAndRelease server domainName

/-- A first login is of the index 0 only. -/
def persistentAuthentication (domainName : String) (authData : Authentication) (lAuthSession : Option Session) :
    List (Use String) :=
  if lAuthSession.isNone ∧ authData.iPassIDX ≠ 0 then [] else openAndRelease server domainName

def runRPCMethod (domainName methodName : String) : List (Use String) :=
  match server.methodsManager.methods.get methodName with
  | none => []
  | some _ => openAndRelease server domainName

/-- An inline call comes with a place for its answer, and without a token. -/
def procJAPIExec (extraAuths : List Authentication) (h : Handler) (useExternalPayload : Bool)
    (sMethodName sPayloadIn : String) : Calls :=
  let userName := (h.authSession.map (·.authUser)).getD (request.postVars "user")
  let domainName := (h.authSession.map (·.authDomain)).getD (request.postVars "domain")
  if !useExternalPayload && !Handler.csrfValidate server request h then .done []
  else if request.postVars "payload" ≠ "" ∧ !server.isJSON sPayloadIn then .done []
  else if server.methodsManager.getMethodRequireFullAuth sMethodName ∧ h.authSession.isNone then .done []
  else
    let temporary := extraAuths.flatMap (temporaryAuthentication server domainName)
    let extraTmpIndexes := (extraAuths.filter fun auth =>
      isPasswordAuthenticated (Handler.authenticateIn server userName domainName auth).1).map (·.iPassIDX)
    match server.authDomains domainName with
    | none => .done temporary
    | some authorizer =>
      match server.methodsManager.validateRPCMethodPerms authorizer.toAuthorizer h.authSession server.now sMethodName
          extraTmpIndexes with
      | none => ⟨temporary ++ [.opens domainName], true⟩
      | some ⟨.ok, _, _⟩ =>
        .done (temporary ++ openAndRelease server domainName ++ runRPCMethod server domainName sMethodName)
      | some _ => .done (temporary ++ openAndRelease server domainName)

/-- The page's functions in their order. The activity that a call counts as changes nothing that the next one asks. -/
def procResourceJProcessor (extraAuths : List Authentication) (h : Handler) : List (String × String) → Calls
  | [] => .done []
  | (functionName, functionInput) :: rest =>
    let call := procJAPIExec server request extraAuths h true functionName functionInput
    if call.faulted then call
    else
      let later := procResourceJProcessor extraAuths h rest
      ⟨call.uses ++ later.uses, later.faulted⟩

def procResourceHTMLIEngine (extraAuths : List Authentication) (h : Handler) : Calls :=
  match web.inlineFunctions request with
  | none => .done []
  | some functions => procResourceJProcessor server request extraAuths h functions

/-- The domain of a visitor with a session is opened for the filter; the engine runs whatever the filter says. -/
def procResourceFile (extraAuths : List Authentication) (h : Handler) : Calls :=
  if web.resourcesLocalPath = "" then .done []
  else
    let authorizer :=
      if web.localFile request then
        match h.authSession with
        | none => []
        | some authSession => openDomain server authSession.authDomain
      else []
    let page :=
      if web.useHTMLIEngine && web.isHTML request then procResourceHTMLIEngine server web request extraAuths h
      else .done []
    ⟨authorizer ++ page.uses, page.faulted⟩

/-! ## The session requests -/

def procJAPISessionLOGIN (auth : Authentication) : List (Use String) :=
  persistentAuthentication server (request.postVars "domain") auth none

def procJAPISessionPOSTLOGIN (auth : Authentication) (authSession : Session) : List (Use String) :=
  persistentAuthentication server authSession.authDomain auth (some authSession)

def procJAPISessionCHPASSWD (oldAuth : Authentication) (authSession : Session) : List (Use String) :=
  match server.authenticationFromString (request.postVars "newAuth") with
  | none => []
  | some newAuth =>
    if oldAuth.iPassIDX ≠ newAuth.iPassIDX then [] else openAndRelease server authSession.authDomain

def procJAPISessionTESTPASSWD (authSession : Session) : List (Use String) :=
  openAndRelease server authSession.authDomain

/-- The function returns with the domain open. -/
def procJAPISessionPASSWDLIST (authSession : Session) : List (Use String) := openDomain server authSession.authDomain

/-- The dispatch on the mode; the modes that are not here use no domain. -/
def procMode (credentials : Authentication) (h : Handler) : List (Use String) :=
  match h.current with
  | none =>
    if request.getVars "mode" = "LOGIN" ∧
        (!server.usingCSRFToken ∨ request.csrfTokenHeader = "00112233445566778899") then
      procJAPISessionLOGIN server request credentials
    else []
  | some webSession =>
    let confirmed := webSession.bAuthTokenConfirmed
    let loggedIn := webSession.authSession.getIsFullyLoggedIn server.now .allowExpiredPasswords
    if confirmed ∧ request.getVars "mode" = "POSTLOGIN" then
      procJAPISessionPOSTLOGIN server credentials webSession.authSession
    else if confirmed ∧ loggedIn ∧ request.getVars "mode" = "CHPASSWD" then
      procJAPISessionCHPASSWD server request credentials webSession.authSession
    else if confirmed ∧ loggedIn ∧ request.getVars "mode" = "TESTPASSWD" then
      procJAPISessionTESTPASSWD server webSession.authSession
    else if confirmed ∧ loggedIn ∧ request.getVars "mode" = "PASSWDLIST" then
      procJAPISessionPASSWDLIST server webSession.authSession
    else []

def procJAPISession (credentials : Authentication) (h : Handler) : List (Use String) :=
  match Handler.checkCSRF server request (Handler.reopen server request h) with
  | (true, _, h) => procMode server request credentials h
  | (false, _, _) => []

/-! ## The request as a whole -/

def dispatch (extraCredentials : List Authentication) (credentials : Authentication) (h : Handler) : Calls :=
  if Handler.requestURI request = "/japi_exec" then
    procJAPIExec server request extraCredentials h false (request.getVars "method") (request.postVars "payload")
  else if Handler.requestURI request = "/japi_version" then .done []
  else if Handler.requestURI request = "/japi_session" then .done (procJAPISession server request credentials h)
  else procResourceFile server web request extraCredentials h

def procHTTPClientContent (m : SessionsManager) : Calls :=
  let h := Handler.new m request.sessionIdCookie
  match server.multiAuthsFromString (request.postVars "extraAuth") with
  | none => .done []
  | some extraCredentials =>
    match server.authenticationFromString (request.postVars "auth") with
    | none => .done []
    | some credentials => dispatch server web request extraCredentials credentials (Handler.sessionOpen server h)

end

end DomainCalls

end Mantids.RPC
