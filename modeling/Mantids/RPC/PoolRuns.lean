import Mantids.Library.Runs
import Mantids.RPC.RequestCleanUp

/-! The pool over whole runs: requests one after the other, the collector, and the
calls of further requests that are still on their way. -/

set_option autoImplicit false

namespace Mantids.RPC

open Auth Threads

namespace Handler

section
variable {sessions : SafeMap String WebSession}

theorem WellNamed.insert (named : WellNamed sessions) {id : String} {entry : SMapElement WebSession}
    (nonempty : id ≠ "") (own : ∀ s ∈ entry.rdElement, s.authSession.sessionId = id) :
    WellNamed (sessions.insert id entry) := by
  intro other found same
  rw [Library.get_insert] at same
  split at same
  · rename_i here
    cases same
    exact here ▸ ⟨nonempty, own⟩
  · exact named other found same

theorem WellNamed.erase (named : WellNamed sessions) (id : String) : WellNamed (sessions.erase id) := by
  intro other found same
  rw [Library.get_erase] at same
  split at same
  · contradiction
  · exact named other found same

theorem WellNamed.openElement (named : WellNamed sessions) (id : String) :
    WellNamed (sessions.openElement id).2 := by
  unfold SafeMap.openElement
  split
  · rename_i s readers found
    apply named.insert (named _ _ found).1
    exact (named _ _ found).2
  · exact named

theorem WellNamed.releaseElement (named : WellNamed sessions) (id : String) :
    WellNamed (sessions.releaseElement id).2 := by
  unfold SafeMap.releaseElement
  split
  · exact named
  · exact named
  · exact named.erase id
  · rename_i element readers found
    apply named.insert (named _ _ found).1
    exact (named _ _ found).2

theorem WellNamed.destroyElement (named : WellNamed sessions) (id : String) :
    WellNamed (sessions.destroyElement id).2 := by
  unfold SafeMap.destroyElement
  split
  · exact named.erase id
  · rename_i s readers found
    apply named.insert (named _ _ found).1
    simp
  · exact named

theorem WellNamed.modifyElement (named : WellNamed sessions) (id : String) {change : WebSession → WebSession}
    (kept : ∀ s, (change s).authSession.sessionId = s.authSession.sessionId) :
    WellNamed (sessions.modifyElement id change) := by
  unfold SafeMap.modifyElement
  split
  · rename_i s readers found
    apply named.insert (named _ _ found).1
    simpa [kept] using (named _ _ found).2
  · exact named

end

end Handler

namespace SessionsManager

/-- A request as a whole, a round of the collector's loop, or one call of a request
that is on its way in another thread. -/
inductive PoolOp where
  | request (server : Server) (request : ClientRequest)
  | gcElement (now : Time) (key : String)
  | createWebSession (session : Session) (randoms : Randoms)
  | openSession (now : Time) (sessionID : String)
  | releaseSession (sessionID : String)
  | destroySession (sessionID : String)
  /-- `destroySession` goes on after it has waited for the readers. -/
  | forgetSession (userDomain : String × String)
  /-- A write into an open session: an activity, an authentication, a confirmed token. -/
  | write (sessionID : String) (change : WebSession → WebSession)
      (kept : ∀ s, (change s).authSession.sessionId = s.authSession.sessionId)

def poolStep (m : SessionsManager) : PoolOp → SessionsManager
  | .request server request => (Handler.procHTTPClientContent server request m).2.sessionsManager
  | .gcElement now key => (m.gcElement now key).2
  | .createWebSession session randoms => (m.createWebSession session randoms).2
  | .openSession now sessionID => (m.openSession now sessionID).2
  | .releaseSession sessionID => (m.releaseSession sessionID).2
  | .destroySession sessionID => (m.destroySession sessionID).2
  | .forgetSession userDomain => (m.forgetSession userDomain).2
  | .write sessionID change _ => { m with sessions := m.sessions.modifyElement sessionID change }

/-- The pool after a run from the empty one. -/
def poolAfter (sessionExpirationTime maxSessionsPerUser : Nat) (run : List PoolOp) : SessionsManager :=
  Library.reached poolStep ⟨∅, ∅, sessionExpirationTime, maxSessionsPerUser⟩ run

open Handler

section
variable {m : SessionsManager} (named : WellNamed m.sessions)
include named

theorem wellNamed_createWebSession (session : Session) (randoms : Randoms) :
    WellNamed (m.createWebSession session randoms).2.sessions := by
  rcases createWebSession_admits m session randoms with ⟨-, -, s, own, same⟩ | ⟨-, -, same⟩
  · rw [same]
    apply named.insert randoms.sessionId_ne_empty
    simpa using own
  · rw [same]
    exact named

theorem wellNamed_destroySession (sessionID : String) :
    WellNamed (m.destroySession sessionID).2.sessions := by
  cases found : sessionAt m sessionID with
  | none =>
    rw [destroySession_missing]
    · exact named
    · intro entry same
      simpa [sessionAt, same] using found
  | some s =>
    obtain ⟨readers, live⟩ := sessionAt_eq_some_iff.mp found
    rw [destroySession_eq live]
    split
    · rw [forgetSession_sessions]
      exact (named.insert (named _ _ live).1 (by simpa using named.session live)).erase sessionID
    · exact named.insert (named _ _ live).1 (by simp)

theorem wellNamed_gcElement (now : Time) (key : String) : WellNamed (m.gcElement now key).2.sessions := by
  have opened := named.openElement key
  unfold gcElement
  split
  · rename_i s sessions same
    rw [same] at opened
    have released := opened.releaseElement key
    simp only
    split
    · split
      · exact released
      · exact released.destroyElement key
    · exact released
  · rename_i sessions same
    rw [same] at opened
    exact opened

theorem wellNamed_openSession (now : Time) (sessionID : String) :
    WellNamed (m.openSession now sessionID).2.sessions := by
  have opened := named.openElement sessionID
  unfold openSession
  split <;> simp_all

theorem wellNamed_leaves {id : String} {entry : Option (SMapElement WebSession)} {cookie : Cookie}
    {destroy : Bool} {h : Handler} (leaves : Leaves m id entry cookie destroy h) (nonempty : id ≠ "")
    (own : ∀ e ∈ entry, ∀ s ∈ e.rdElement, s.authSession.sessionId = id) :
    WellNamed h.sessionsManager.sessions := by
  intro other found same
  rw [leaves.sessions] at same
  split at same
  · rename_i here
    exact here ▸ ⟨nonempty, own found same⟩
  · exact named other found same

theorem wellNamed_request (server : Server) (request : ClientRequest) :
    WellNamed (procHTTPClientContent server request m).2.sessionsManager.sessions := by
  have ran := run_request server request named
  generalize procHTTPClientContent server request m = result at ran ⊢
  cases ran with
  | malformed => exact named
  | @held id s readers age cookies _ _ _ _ _ _ _ found outcome =>
    have nonempty := (named _ _ found).1
    have own := named.session found
    cases outcome with
    | kept s' destroy kept =>
      cases destroy with
      | false => exact wellNamed_leaves named (released_leaves ..) nonempty (by simp [kept.id, own])
      | true => exact wellNamed_leaves named (destroyed_leaves ..) nonempty (by split <;> simp)
    | refused => exact wellNamed_leaves named (refused_leaves _ _ _ _ _ _ named nonempty) nonempty (by simp [own])
    | confirmed => exact wellNamed_leaves named (released_leaves ..) nonempty (by simp [own])
  | bare _ _ _ outcome =>
    cases outcome with
    | idle code m' same => exact same ▸ named
    | created m' s age same own =>
      simp only [Handler.bare, same]
      exact named.insert server.randoms.sessionId_ne_empty (by simpa using own)

theorem wellNamed_poolStep (op : PoolOp) : WellNamed (poolStep m op).sessions := by
  cases op with
  | request server request => exact wellNamed_request named server request
  | gcElement now key => exact wellNamed_gcElement named now key
  | createWebSession session randoms => exact wellNamed_createWebSession named session randoms
  | openSession now sessionID => exact wellNamed_openSession named now sessionID
  | releaseSession sessionID => exact named.releaseElement sessionID
  | destroySession sessionID => exact wellNamed_destroySession named sessionID
  | forgetSession userDomain => exact (forgetSession_sessions m userDomain).symm ▸ named
  | write sessionID change kept => exact named.modifyElement sessionID kept

end

theorem wellNamed_poolAfter (sessionExpirationTime maxSessionsPerUser : Nat) (run : List PoolOp) :
    WellNamed (poolAfter sessionExpirationTime maxSessionsPerUser run).sessions := by
  apply Library.invariant_reached fun m : SessionsManager => WellNamed m.sessions
  · intro m op named
    exact wellNamed_poolStep named op
  · intro id entry found
    cases found

end SessionsManager

/-! ## A server to run -/

namespace Handler

/-- One domain with one account, `bob`, whose password is `secret`. -/
def sampleServer : Server where
  usingCSRFToken := true
  authDomains domainName :=
    if domainName = "corp" then
      some {
        isAccountSuperUser := fun _ => false
        accountValidateAttribute := fun _ _ => false
        authenticate := fun userName auth =>
          if userName = "bob" ∧ auth.sPassword = "secret" then (.authenticated, [(0, "password")])
          else (.badPassword, []) }
    else none
  methodsManager := .new "app"
  authenticationFromJSON sAuth :=
    if sAuth = "\x7b\"pass\":\"secret\",\"idx\":0\x7d" then some ⟨"secret", 0⟩ else none
  multiAuthsFromJSON _ := none
  isJSON _ := false
  sessionResource _ _ := (.notFound, false)
  publicResource _ := some .notFound
  now := 0
  randoms := ⟨"a", "b", "c", "d"⟩

/-- A session request with a cookie and a token, and nothing posted. -/
def sessionRequest (mode sessionIdCookie csrfTokenHeader : String) : ClientRequest where
  uri := "/japi_session"
  sessionIdCookie := sessionIdCookie
  csrfTokenHeader := csrfTokenHeader
  getVars name := if name = "mode" then mode else ""
  postVars _ := ""

def loginRequest : ClientRequest :=
  { sessionRequest "LOGIN" "" "00112233445566778899" with
    postVars := fun name =>
      if name = "user" then "bob"
      else if name = "domain" then "corp"
      else if name = "auth" then "\x7b\"pass\":\"secret\",\"idx\":0\x7d"
      else "" }

def confirmRequest : ClientRequest :=
  { sessionRequest "AUTHCSRF" "" "c" with
    postVars := fun name => if name = "sessionId" then "a:b" else "" }

end Handler

end Mantids.RPC
