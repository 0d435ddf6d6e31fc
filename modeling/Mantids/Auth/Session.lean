import Mantids.Library.Table

/-! Authentication sessions (`session.cpp`): the factors a session has
authenticated, their policies, and when it was last active. -/

set_option autoImplicit false

namespace Mantids.Auth

inductive Reason where
  | authenticated
  | internalError
  | notImplemented
  | duplicatedSession
  | expiredPassword
  | expiredAccount
  | disabledAccount
  | unconfirmedAccount
  | badAccount
  | badPassword
  | passwordIndexNotFound
  | invalidDomain
  | invalidAuthenticator
  | sessionLimitsExceeded
  | answerTimedOut
  | expired
  | unauthenticated
  deriving DecidableEq, Repr

def isPasswordAuthenticated (reason : Reason) : Bool :=
  reason = .authenticated || reason = .expiredPassword

/-- `time_t`. -/
abbrev Time := Int

abbrev PassIndex := UInt32

structure AuthenticationPolicy where
  validTime : Time

structure CurrentAuthentication where
  lastAuthStatus : Reason
  authTime : Time

inductive CheckMode where
  | allowExpiredPasswords
  | disallowExpiredPasswords

/-- A `std::map` of the indexes a login needs, with a description of each, in the order of its keys. -/
structure LoginIdxs where
  entries : List (PassIndex × String)
  sorted : entries.Pairwise fun earlier later => earlier.1 < later.1

structure Session where
  authUser : String
  authDomain : String
  sessionId : String
  isPersistentSession : Bool
  requiredLoginIdxs : List (PassIndex × String)
  authMatrix : Library.Table PassIndex CurrentAuthentication
  authPolicies : Library.Table PassIndex AuthenticationPolicy
  firstActivity : Time
  lastActivity : Time

namespace Session

/-- The activity times are not initialised by the constructor; whoever creates a
session for the pool registers an authentication, which sets them. -/
def new (sessionId : String) (firstActivity lastActivity : Time) : Session where
  authUser := ""
  authDomain := ""
  sessionId := sessionId
  isPersistentSession := false
  requiredLoginIdxs := []
  authMatrix := ∅
  authPolicies := ∅
  firstActivity := firstActivity
  lastActivity := lastActivity

def getUserDomainPair (session : Session) : String × String := (session.authUser, session.authDomain)

def updateLastActivity (session : Session) (now : Time) : Session := { session with lastActivity := now }

/-- The difference is cast to 32 bits before it is compared. -/
def isLastActivityExpired (session : Session) (now : Time) (expSeconds : Nat) : Bool :=
  decide (session.lastActivity > now) || decide ((now - session.lastActivity).toNat % 2 ^ 32 > expSeconds)

/-- The overload without an account name. -/
def registerAuthentication (session : Session) (now : Time) (passIndex : PassIndex) (reason : Reason) :
    Session :=
  let session := { session with authMatrix := session.authMatrix.insert passIndex ⟨reason, now⟩ }
  if isPasswordAuthenticated reason then { session with lastActivity := now, firstActivity := now }
  else session

def registerPersistentAuthentication (session : Session) (now : Time)
    (sAccountName accountDomain : String) (passIndex : PassIndex) (reason : Reason) : Session :=
  let session := session.registerAuthentication now passIndex reason
  if passIndex = 0 ∧ isPasswordAuthenticated reason then
    { session with authUser := sAccountName, authDomain := accountDomain }
  else session

def setRequiredLoginIdx (session : Session) (value : LoginIdxs) : Session :=
  { session with requiredLoginIdxs := value.entries }

def setIndexAuthenticationPolicy (session : Session) (passIndex : PassIndex) (authPolicy : AuthenticationPolicy) :
    Session :=
  { session with authPolicies := session.authPolicies.insert passIndex authPolicy }

def getCurrentAuthenticationStatus (session : Session) (passIndex : PassIndex) : CurrentAuthentication :=
  (session.authMatrix.get passIndex).getD ⟨.unauthenticated, 0⟩

def getIdxAuthenticationStatus (session : Session) (now : Time) (passIndex : PassIndex) : Reason :=
  let curAuthStatus := session.getCurrentAuthenticationStatus passIndex
  if isPasswordAuthenticated curAuthStatus.lastAuthStatus then
    match session.authPolicies.get passIndex with
    | some policy =>
      if 0 < policy.validTime ∧ curAuthStatus.authTime + policy.validTime < now then .expired
      else curAuthStatus.lastAuthStatus
    | none => curAuthStatus.lastAuthStatus
  else curAuthStatus.lastAuthStatus

/-- The pair with `0xFFFFFFFF` when no login is missing. -/
def getNextRequiredLoginIdxs (session : Session) (now : Time) : PassIndex × String :=
  (session.requiredLoginIdxs.find? fun i =>
    !isPasswordAuthenticated (session.getIdxAuthenticationStatus now i.1)).getD (0xFFFFFFFF, "")

def getIsFullyLoggedIn (session : Session) (now : Time) (checkMode : CheckMode) : Bool :=
  !session.requiredLoginIdxs.isEmpty &&
    session.requiredLoginIdxs.all fun i =>
      match checkMode with
      | .disallowExpiredPasswords => session.getIdxAuthenticationStatus now i.1 = .authenticated
      | .allowExpiredPasswords => isPasswordAuthenticated (session.getIdxAuthenticationStatus now i.1)

end Session

end Mantids.Auth
