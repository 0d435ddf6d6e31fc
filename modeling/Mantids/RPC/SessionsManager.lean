import Mantids.Auth.Session
import Mantids.Threads.SafeMap

/-! The pool of web sessions (`sessionsmanager.cpp`). The random strings of a new
session and the clock are arguments. -/

set_option autoImplicit false

namespace Mantids.RPC

open Auth Threads

structure WebSession where
  authSession : Session
  bAuthTokenConfirmed : Bool
  sCSRFAuthConfirmToken : String
  sCSRFToken : String

namespace WebSession

def validateCSRFToken (session : WebSession) (token : String) : Bool := token = session.sCSRFToken

def confirmAuthCSRFToken (session : WebSession) (token : String) : WebSession :=
  { session with bAuthTokenConfirmed := token = session.sCSRFAuthConfirmToken }

def userOf (session : WebSession) : String × String := session.authSession.getUserDomainPair

end WebSession

/-- The four `createRandomString` results behind a new web session. -/
structure Randoms where
  idFirst : String
  idSecond : String
  confirmToken : String
  csrfToken : String

namespace Randoms

def sessionId (randoms : Randoms) : String := randoms.idFirst ++ ":" ++ randoms.idSecond

theorem sessionId_ne_empty (randoms : Randoms) : randoms.sessionId ≠ "" := by
  intro empty
  have lengths := congrArg String.length empty
  simp [sessionId] at lengths

end Randoms

structure SessionsManager where
  sessionPerUser : Library.Table (String × String) Nat
  sessions : SafeMap String WebSession
  sessionExpirationTime : Nat
  maxSessionsPerUser : Nat

/-- How `destroySession` ends; `unregistered` is its `runtime_error`. -/
inductive Destroyed where
  | no
  | yes
  | waiting
  | unregistered
  deriving DecidableEq, Repr

/-- `--` on a 32-bit counter. -/
def decrement (count : Nat) : Nat := if count = 0 then 2 ^ 32 - 1 else count - 1

namespace SessionsManager

/-- The constructor's settings with an empty pool. -/
def new : SessionsManager := ⟨∅, ∅, 900, 100⟩

/-- The body of the loop of `gc`; a wait of `destroyElement` blocks the collector. -/
def gcElement (m : SessionsManager) (now : Time) (key : String) : Ending × SessionsManager :=
  match m.sessions.openElement key with
  | (some s, sessions) =>
    if s.authSession.isLastActivityExpired now m.sessionExpirationTime then
      let (released, sessions) := sessions.releaseElement key
      if released = .throws then (released, { m with sessions := sessions })
      else
        let (destroyed, sessions) := sessions.destroyElement key
        (destroyed, { m with sessions := sessions })
    else
      let (released, sessions) := sessions.releaseElement key
      (released, { m with sessions := sessions })
  | (none, sessions) => (.no, { m with sessions := sessions })

def gcLoop (now : Time) : List String → SessionsManager → SessionsManager
  | [], m => m
  | key :: keys, m =>
    match gcElement m now key with
    | (.waiting, m) => m
    | (.throws, m) => m
    | (_, m) => gcLoop now keys m

def gc (m : SessionsManager) (now : Time) : SessionsManager := gcLoop now m.sessions.getKeys m

def createWebSession (m : SessionsManager) (session : Session) (randoms : Randoms) :
    String × SessionsManager :=
  let userDomain := session.getUserDomainPair
  match m.sessionPerUser.get userDomain with
  | none => addSession { m with sessionPerUser := m.sessionPerUser.insert userDomain 1 }
  | some count =>
    if m.maxSessionsPerUser ≤ count then ("", m)
    else addSession { m with sessionPerUser := m.sessionPerUser.insert userDomain (count + 1) }
where
  addSession (m : SessionsManager) : String × SessionsManager :=
    let webSession : WebSession :=
      ⟨{ session with sessionId := randoms.sessionId }, false, randoms.confirmToken, randoms.csrfToken⟩
    match m.sessions.addElement randoms.sessionId webSession with
    | (true, sessions) => (randoms.sessionId, { m with sessions := sessions })
    | (false, sessions) => ("", { m with sessions := sessions })

/-- What `destroySession` does once its element is gone. -/
def forgetSession (m : SessionsManager) (userDomain : String × String) : Destroyed × SessionsManager :=
  match m.sessionPerUser.get userDomain with
  | none => (.unregistered, m)
  | some count =>
    let left := decrement count
    let sessionPerUser := m.sessionPerUser.insert userDomain left
    (.yes, { m with
      sessionPerUser := if left = 0 then sessionPerUser.erase userDomain else sessionPerUser })

def destroySession (m : SessionsManager) (sessionID : String) : Destroyed × SessionsManager :=
  match m.sessions.openElement sessionID with
  | (none, sessions) => (.no, { m with sessions := sessions })
  | (some sess, sessions) =>
    let userDomain := sess.authSession.getUserDomainPair
    let (_, sessions) := sessions.releaseElement sessionID
    match sessions.destroyElement sessionID with
    | (.yes, sessions) => forgetSession { m with sessions := sessions } userDomain
    | (.waiting, sessions) => (.waiting, { m with sessions := sessions })
    | (_, sessions) => (.no, { m with sessions := sessions })

theorem forgetSession_sessions (m : SessionsManager) (userDomain : String × String) :
    (m.forgetSession userDomain).2.sessions = m.sessions := by
  unfold forgetSession
  split <;> rfl

/-- The session goes at once, or it stays closed for new readers until the others release it. -/
theorem destroySession_eq {m : SessionsManager} {sessionID : String} {s : WebSession} {readers : Nat}
    (found : m.sessions.get sessionID = some ⟨some s, readers⟩) :
    m.destroySession sessionID =
      if readers = 0 then
        forgetSession { m with sessions := (m.sessions.insert sessionID ⟨some s, 0⟩).erase sessionID } s.userOf
      else (.waiting, { m with sessions := m.sessions.insert sessionID ⟨none, readers⟩ }) := by
  cases readers with
  | zero =>
    simp only [destroySession, SafeMap.openElement, found, SafeMap.releaseElement, Library.get_insert_self,
      AList.insert_insert, SafeMap.destroyElement, if_true]
    rfl
  | succ others =>
    simp only [destroySession, SafeMap.openElement, found, SafeMap.releaseElement, Library.get_insert_self,
      AList.insert_insert, SafeMap.destroyElement, Nat.succ_ne_zero, if_false]

theorem destroySession_missing {m : SessionsManager} {sessionID : String}
    (missing : ∀ entry, m.sessions.get sessionID = some entry → entry.rdElement = none) :
    (m.destroySession sessionID).2 = m := by
  cases found : m.sessions.get sessionID with
  | none => simp only [destroySession, SafeMap.openElement, found]
  | some entry =>
    obtain ⟨element, readers⟩ := entry
    have gone : element = none := missing _ found
    subst gone
    simp only [destroySession, SafeMap.openElement, found]

theorem get_destroySession {m : SessionsManager} {sessionID : String} {s : WebSession} {readers : Nat}
    (found : m.sessions.get sessionID = some ⟨some s, readers⟩) (other : String) :
    (m.destroySession sessionID).2.sessions.get other =
      if other = sessionID then (if readers = 0 then none else some ⟨none, readers⟩)
      else m.sessions.get other := by
  rw [destroySession_eq found]
  split
  · rw [forgetSession_sessions, Library.get_erase, Library.get_insert]
    split <;> rfl
  · exact Library.get_insert ..

/-- The `maxAge` that `openSession` reports: the seconds the session has left. -/
def timeLeft (m : SessionsManager) (now : Time) (xs : WebSession) : Nat :=
  let expirationTime := xs.authSession.lastActivity + m.sessionExpirationTime
  if xs.authSession.isLastActivityExpired now m.sessionExpirationTime then 0
  else if now < expirationTime then (expirationTime - now).toNat
  else 0

def openSession (m : SessionsManager) (now : Time) (sessionID : String) :
    Option (WebSession × Nat) × SessionsManager :=
  match m.sessions.openElement sessionID with
  | (none, sessions) => (none, { m with sessions := sessions })
  | (some xs, sessions) => (some (xs, m.timeLeft now xs), { m with sessions := sessions })

def releaseSession (m : SessionsManager) (sessionID : String) : Ending × SessionsManager :=
  let (released, sessions) := m.sessions.releaseElement sessionID
  (released, { m with sessions := sessions })

end SessionsManager

end Mantids.RPC
