import Mantids.RPC.Authorisation
import Mantids.RPC.WebClientHandler

/-! What a request can do to the session it holds: the handler with and without a
session, and one inversion lemma for everything between opening and clean-up. -/

set_option autoImplicit false

namespace Mantids.RPC.Handler

open Auth Threads

/-- The live session under an id. -/
def sessionAt (m : SessionsManager) (id : String) : Option WebSession :=
  (m.sessions.get id).bind (·.rdElement)

/-- A handler that holds a reader on the session `s`, with `readers` others. -/
def holding (m : SessionsManager) (id : String) (s : WebSession) (readers age : Nat) (cookies : Cookies) :
    Handler where
  sessionsManager := { m with sessions := m.sessions.insert id ⟨some s, readers + 1⟩ }
  webSession := some id
  uSessionMaxAge := age
  sSessionId := id
  bDestroySession := false
  bReleaseSessionHandler := true
  cookies := cookies

def bare (m : SessionsManager) (cookies : Cookies) : Handler where
  sessionsManager := m
  webSession := none
  uSessionMaxAge := 0
  sSessionId := ""
  bDestroySession := false
  bReleaseSessionHandler := false
  cookies := cookies

section
variable (m : SessionsManager) (id : String) (s : WebSession) (readers age : Nat) (cookies : Cookies)

@[simp] theorem current_holding : (holding m id s readers age cookies).current = some s := by
  simp [current, holding]

@[simp] theorem current_bare : (bare m cookies).current = none := rfl

@[simp] theorem authSession_holding :
    (holding m id s readers age cookies).authSession = some s.authSession := by
  simp [authSession]

@[simp] theorem authSession_bare : (bare m cookies).authSession = none := rfl

@[simp] theorem modify_holding (change : WebSession → WebSession) :
    (holding m id s readers age cookies).modify change = holding m id (change s) readers age cookies := by
  simp [modify, holding, SafeMap.modifyElement, AList.insert_insert]

@[simp] theorem modify_bare (change : WebSession → WebSession) :
    (bare m cookies).modify change = bare m cookies := rfl

@[simp] theorem updateLastActivity_bare (now : Time) :
    (bare m cookies).updateLastActivity now = bare m cookies := rfl

@[simp] theorem updateLastActivity_holding (now : Time) :
    (holding m id s readers age cookies).updateLastActivity now =
      holding m id { s with authSession := s.authSession.updateLastActivity now } readers age cookies :=
  modify_holding ..

end

/-! ## Opening -/

theorem sessionAt_eq_some_iff {m : SessionsManager} {id : String} {s : WebSession} :
    sessionAt m id = some s ↔ ∃ readers, m.sessions.get id = some ⟨some s, readers⟩ := by
  unfold sessionAt
  cases found : m.sessions.get id with
  | none => simp
  | some entry =>
    obtain ⟨element, readers⟩ := entry
    simp

theorem sessionOpen_live (server : Server) {m : SessionsManager} {h : Handler} {s : WebSession}
    {readers : Nat} (manager : h.sessionsManager = m) (quiet : h.bDestroySession = false)
    (found : m.sessions.get h.sSessionId = some ⟨some s, readers⟩) :
    sessionOpen server h = holding m h.sSessionId s readers (m.timeLeft server.now s) h.cookies := by
  simp only [sessionOpen, manager, SessionsManager.openSession, SafeMap.openElement, found, holding, quiet]

theorem sessionOpen_missing (server : Server) {m : SessionsManager} {h : Handler}
    (manager : h.sessionsManager = m) (missing : sessionAt m h.sSessionId = none) :
    sessionOpen server h = { h with
      webSession := none
      cookies := if h.sSessionId ≠ "" then h.cookies.addClearSecureCookie "sessionId" "/" else h.cookies
      sSessionId := "" } := by
  have failed : m.sessions.openElement h.sSessionId = (none, m.sessions) := by
    unfold sessionAt at missing
    unfold SafeMap.openElement
    cases found : m.sessions.get h.sSessionId with
    | none => rfl
    | some entry =>
      obtain ⟨element, readers⟩ := entry
      rw [found] at missing
      cases element with
      | none => rfl
      | some s => contradiction
  simp only [sessionOpen, manager, SessionsManager.openSession, failed]

/-! ## Between opening and clean-up -/

/-- What no request changes in a session but an `AUTHCSRF` confirmation. -/
structure Kept (s s' : WebSession) : Prop where
  id : s'.authSession.sessionId = s.authSession.sessionId
  confirmed : s'.bAuthTokenConfirmed = s.bAuthTokenConfirmed

theorem Kept.refl (s : WebSession) : Kept s s := ⟨rfl, rfl⟩

theorem sessionId_register (session : Session) (now : Time) (user domain : String) (passIndex : PassIndex)
    (reason : Reason) :
    (session.registerPersistentAuthentication now user domain passIndex reason).sessionId =
      session.sessionId := by
  unfold Session.registerPersistentAuthentication Session.registerAuthentication
  split <;> split <;> rfl

/-- A `POSTLOGIN` on the session `s` whose inner authentication fails. -/
structure RefusedLogin (server : Server) (request : ClientRequest) (credentials : Authentication)
    (s : WebSession) : Prop where
  uri : requestURI request = "/japi_session"
  mode : request.getVars "mode" = "POSTLOGIN"
  confirmed : s.bAuthTokenConfirmed = true
  token : server.usingCSRFToken = true → s.validateCSRFToken request.csrfTokenHeader = true
  refused : isPasswordAuthenticated
    (authenticateIn server s.authSession.authUser s.authSession.authDomain credentials).1 = false

/-- An `AUTHCSRF` that confirms the session `s`. -/
structure Confirms (server : Server) (request : ClientRequest) (s : WebSession) : Prop where
  uri : requestURI request = "/japi_session"
  csrf : server.usingCSRFToken = true
  mode : request.getVars "mode" = "AUTHCSRF"
  unconfirmed : s.bAuthTokenConfirmed = false
  token : request.csrfTokenHeader = s.sCSRFAuthConfirmToken

section
variable {server : Server} {request : ClientRequest} {credentials : Authentication}
  {m : SessionsManager} {id : String} {s : WebSession} {readers age : Nat} {cookies : Cookies}

/-- The three ways in which a request leaves the handler that holds a session. -/
inductive Outcome (server : Server) (request : ClientRequest) (credentials : Authentication)
    (m : SessionsManager) (id : String) (s : WebSession) (readers age : Nat) (cookies : Cookies) :
    Handler → Prop where
  | kept (s' : WebSession) (destroy : Bool) : Kept s s' → ¬RefusedLogin server request credentials s →
      ¬Confirms server request s →
      (destroy = true → server.usingCSRFToken = true → s.bAuthTokenConfirmed = true) → Outcome server request credentials m id s readers age cookies
        { holding m id s' readers age cookies with bDestroySession := destroy }
  | refused : RefusedLogin server request credentials s →
      Outcome server request credentials m id s readers age cookies
        { holding m id s readers age cookies with sSessionId := "", bDestroySession := true }
  | confirmed : Confirms server request s →
      Outcome server request credentials m id s readers age cookies
        (holding m id { s with bAuthTokenConfirmed := true } readers age
          (cookies.setSecureCookie "sessionId" id age ""))

section
variable (notRefused : ¬RefusedLogin server request credentials s)
  (notConfirms : ¬Confirms server request s)
include notRefused notConfirms

theorem Outcome.same :
    Outcome server request credentials m id s readers age cookies (holding m id s readers age cookies) :=
  .kept s false (.refl s) notRefused notConfirms nofun

theorem Outcome.destroyed
    (accepted : server.usingCSRFToken = true → s.bAuthTokenConfirmed = true) : Outcome server request credentials m id s readers age cookies
    { holding m id s readers age cookies with bDestroySession := true } :=
  .kept s true (.refl s) notRefused notConfirms fun _ => accepted

theorem Outcome.active (now : Time) : Outcome server request credentials m id s readers age cookies
    ((holding m id s readers age cookies).updateLastActivity now) := by
  rw [updateLastActivity_holding]
  exact .kept _ false ⟨rfl, rfl⟩ notRefused notConfirms nofun

theorem chpasswd_outcome (confirmed : s.bAuthTokenConfirmed = true) :
    Outcome server request credentials m id s readers age cookies
    (procJAPISessionCHPASSWD server request credentials (holding m id s readers age cookies)).2 := by
  simp only [procJAPISessionCHPASSWD, authSession_holding]
  split
  · exact .same notRefused notConfirms
  · split
    · exact .same notRefused notConfirms
    · split
      · exact .same notRefused notConfirms
      · split
        · exact .same notRefused notConfirms
        · exact .destroyed notRefused notConfirms fun _ => confirmed

theorem testpasswd_outcome (confirmed : s.bAuthTokenConfirmed = true) :
    Outcome server request credentials m id s readers age cookies
    (procJAPISessionTESTPASSWD server credentials (holding m id s readers age cookies)).2 := by
  simp only [procJAPISessionTESTPASSWD, authSession_holding]
  split
  · exact .same notRefused notConfirms
  · split
    · exact .same notRefused notConfirms
    · exact .destroyed notRefused notConfirms fun _ => confirmed

end

theorem postlogin_outcome (named : s.authSession.sessionId = id)
    (uri : requestURI request = "/japi_session") (mode : request.getVars "mode" = "POSTLOGIN")
    (confirmed : s.bAuthTokenConfirmed = true)
    (token : server.usingCSRFToken = true → s.validateCSRFToken request.csrfTokenHeader = true)
    (notConfirms : ¬Confirms server request s) :
    Outcome server request credentials m id s readers age cookies
      (procJAPISessionPOSTLOGIN server credentials (holding m id s readers age cookies)).2 := by
  simp only [procJAPISessionPOSTLOGIN, authSession_holding, registerAuthentication]
  by_cases accepted : isPasswordAuthenticated
      (authenticateIn server s.authSession.authUser s.authSession.authDomain credentials).1 = true
  · simp only [accepted, if_true, modify_holding, named]
    refine .kept _ false ⟨sessionId_register .., rfl⟩ (fun login => ?_) notConfirms nofun
    rw [login.refused] at accepted
    contradiction
  · simp only [accepted, Bool.false_eq_true, if_false]
    exact .refused ⟨uri, mode, confirmed, token, by simpa using accepted⟩

theorem procMode_outcome (named : s.authSession.sessionId = id)
    (uri : requestURI request = "/japi_session")
    (accepted : server.usingCSRFToken = true → s.bAuthTokenConfirmed = true)
    (token : server.usingCSRFToken = true → request.getVars "mode" = "POSTLOGIN" →
      s.validateCSRFToken request.csrfTokenHeader = true)
    (notConfirms : ¬Confirms server request s) :
    Outcome server request credentials m id s readers age cookies
      (procMode server request credentials (holding m id s readers age cookies)).2 := by
  simp only [procMode, current_holding]
  split
  · rename_i postlogin
    exact postlogin_outcome named uri postlogin.2 postlogin.1 (fun csrf => token csrf postlogin.2) notConfirms
  · -- only `POSTLOGIN` can be refused with the id forgotten
    rename_i other
    have notRefused : ¬RefusedLogin server request credentials s :=
      fun login => other ⟨login.confirmed, login.mode⟩
    split
    · rename_i chpasswd
      exact chpasswd_outcome notRefused notConfirms chpasswd.1
    · split
      · rename_i testpasswd
        exact testpasswd_outcome notRefused notConfirms testpasswd.1
      · split
        · exact .same notRefused notConfirms
        · split
          · exact .active notRefused notConfirms server.now
          · split
            · exact .same notRefused notConfirms
            · split
              · exact .destroyed notRefused notConfirms accepted
              · exact .same notRefused notConfirms

theorem procOpened_outcome (named : s.authSession.sessionId = id)
    (uri : requestURI request = "/japi_session") :
    Outcome server request credentials m id s readers age cookies
      (procOpened server request credentials (holding m id s readers age cookies)).2 := by
  by_cases csrf : server.usingCSRFToken = true
  case neg =>
    simp only [procOpened, checkCSRF, csrf]
    exact procMode_outcome named uri (fun on => absurd on csrf) (fun on => absurd on csrf) fun confirms => csrf confirms.csrf
  simp only [procOpened, checkCSRF, csrf, if_true, current_holding]
  by_cases confirming : s.bAuthTokenConfirmed = false ∧ request.getVars "mode" = "AUTHCSRF"
  · obtain ⟨unconfirmed, mode⟩ := confirming
    by_cases token : request.csrfTokenHeader = s.sCSRFAuthConfirmToken
    · simp [unconfirmed, mode, token, WebSession.confirmAuthCSRFToken]
      exact .confirmed ⟨uri, csrf, mode, unconfirmed, token⟩
    · simp [unconfirmed, mode, token, WebSession.confirmAuthCSRFToken]
      refine .kept _ false ⟨rfl, unconfirmed.symm⟩ (fun login => ?_) (fun confirms => token confirms.token) nofun
      rw [login.confirmed] at unconfirmed
      contradiction
  · have notConfirms : ¬Confirms server request s :=
      fun confirms => confirming ⟨confirms.unconfirmed, confirms.mode⟩
    have skipped : ¬((!s.bAuthTokenConfirmed) = true ∧ request.getVars "mode" = "AUTHCSRF") := by
      simpa using confirming
    rw [if_neg skipped]
    by_cases valid : s.bAuthTokenConfirmed = true ∧ s.validateCSRFToken request.csrfTokenHeader = true
    · rw [if_pos valid]
      exact procMode_outcome named uri (fun _ => valid.1) (fun _ _ => valid.2) notConfirms
    · rw [if_neg valid]
      by_cases token : (s.bAuthTokenConfirmed && request.getVars "mode" = "CSRFTOKEN") = true
      · rw [token]
        have confirmed : s.bAuthTokenConfirmed = true := (Bool.and_eq_true_iff.mp token).1
        refine procMode_outcome named uri (fun _ => confirmed) (fun _ postlogin => ?_) notConfirms
        simp [postlogin] at token
      · rw [Bool.not_eq_true] at token
        rw [token]
        exact .same (fun login => valid ⟨login.confirmed, login.token csrf⟩) notConfirms

theorem exec_outcome {extraCredentials : List Authentication}
    (notRefused : ¬RefusedLogin server request credentials s) (notConfirms : ¬Confirms server request s) :
    ∃ code h, procJAPIExec server request extraCredentials (holding m id s readers age cookies) =
      (some code, h) ∧ Outcome server request credentials m id s readers age cookies h := by
  have idle : Outcome server request credentials m id s readers age cookies
      (holding m id s readers age cookies) := .same notRefused notConfirms
  unfold procJAPIExec
  simp only [authSession_holding]
  split
  · exact ⟨_, _, rfl, idle⟩
  · split
    · exact ⟨_, _, rfl, idle⟩
    · split
      · exact ⟨_, _, rfl, idle⟩
      · split
        · exact ⟨_, _, rfl, idle⟩
        · -- with a session behind it the verdict cannot fault
          split
          · rename_i faulted
            obtain ⟨verdict, returned, -⟩ := exactVerdict_of_session server.methodsManager _ server.now
              (request.getVars "method") _ s.authSession
            rw [returned] at faulted
            contradiction
          · exact ⟨_, _, rfl, .active notRefused notConfirms server.now⟩
          · exact ⟨_, _, rfl, idle⟩
          · exact ⟨_, _, rfl, idle⟩

/-- Everything that a request does between opening a session and the clean-up. -/
theorem dispatch_outcome {extraCredentials : List Authentication} (named : s.authSession.sessionId = id)
    (nonempty : id ≠ "") :
    ∃ code h, dispatch server request extraCredentials credentials (holding m id s readers age cookies) =
      (some code, h) ∧ Outcome server request credentials m id s readers age cookies h := by
  unfold dispatch
  by_cases uri : requestURI request = "/japi_session"
  · have kept : reopen server request (holding m id s readers age cookies) =
        holding m id s readers age cookies := if_neg fun empty => nonempty empty.1
    simp only [uri, procJAPISession, kept]
    exact ⟨_, _, rfl, procOpened_outcome named uri⟩
  · have notRefused : ¬RefusedLogin server request credentials s := fun login => uri login.uri
    have notConfirms : ¬Confirms server request s := fun confirms => uri confirms.uri
    split
    · exact exec_outcome notRefused notConfirms
    · split
      · exact ⟨_, _, rfl, .same notRefused notConfirms⟩
      · rw [procResourceFile, current_holding]
        simp only
        split
        · exact ⟨_, _, rfl, .active notRefused notConfirms server.now⟩
        · exact ⟨_, _, rfl, .same notRefused notConfirms⟩

end

/-! ## Without a session -/

/-- Whether the pool admits a new session of the user under the new id. -/
def Admits (m : SessionsManager) (user : String × String) (randoms : Randoms) : Prop :=
  (∀ count, m.sessionPerUser.get user = some count → count < m.maxSessionsPerUser) ∧
    m.sessions.get randoms.sessionId = none

theorem addSession_cases (m : SessionsManager) (session : Session) (randoms : Randoms) :
    let created := SessionsManager.createWebSession.addSession session randoms m
    (m.sessions.get randoms.sessionId = none ∧ created.1 = randoms.sessionId ∧
      ∃ s : WebSession, s.authSession.sessionId = randoms.sessionId ∧
        created.2.sessions = m.sessions.insert randoms.sessionId ⟨some s, 0⟩) ∨
    (m.sessions.get randoms.sessionId ≠ none ∧ created.1 = "" ∧ created.2.sessions = m.sessions) := by
  simp only [SessionsManager.createWebSession.addSession, SafeMap.addElement]
  cases used : m.sessions.get randoms.sessionId with
  | none =>
    left
    exact ⟨rfl, rfl, ⟨{ session with sessionId := randoms.sessionId }, false, randoms.confirmToken,
      randoms.csrfToken⟩, rfl, rfl⟩
  | some entry =>
    right
    exact ⟨Option.some_ne_none entry, rfl, rfl⟩

theorem createWebSession_admits (m : SessionsManager) (session : Session) (randoms : Randoms) :
    let created := m.createWebSession session randoms
    (Admits m session.getUserDomainPair randoms ∧ created.1 = randoms.sessionId ∧
      ∃ s : WebSession, s.authSession.sessionId = randoms.sessionId ∧
        created.2.sessions = m.sessions.insert randoms.sessionId ⟨some s, 0⟩) ∨
    (¬Admits m session.getUserDomainPair randoms ∧ created.1 = "" ∧ created.2.sessions = m.sessions) := by
  unfold SessionsManager.createWebSession Admits
  cases known : m.sessionPerUser.get session.getUserDomainPair with
  | none =>
    simp only [known, reduceCtorEq, false_implies, implies_true, true_and]
    exact addSession_cases { m with
      sessionPerUser := m.sessionPerUser.insert session.getUserDomainPair 1 } session randoms
  | some count =>
    by_cases full : m.maxSessionsPerUser ≤ count
    · right
      simp only [known, full, if_true]
      refine ⟨fun admits => ?_, trivial, trivial⟩
      have below := admits.1 count rfl
      omega
    · simp only [known, full, if_false, Option.some.injEq, forall_eq', Nat.lt_of_not_le full, true_and]
      exact addSession_cases { m with
        sessionPerUser := m.sessionPerUser.insert session.getUserDomainPair (count + 1) } session randoms

theorem userDomainPair_loginSession (server : Server) (user domain : String) {reason : Reason}
    (passIndexes : List (PassIndex × String)) (accepted : isPasswordAuthenticated reason = true) :
    (loginSession server user domain 0 reason passIndexes).getUserDomainPair = (user, domain) := by
  simp [loginSession, Session.registerPersistentAuthentication, accepted, Session.getUserDomainPair]

/-- A first login that is good for a new session. -/
structure Admitted (server : Server) (credentials : Authentication) (m : SessionsManager)
    (user domain : String) : Prop where
  index : credentials.iPassIDX = 0
  accepted : isPasswordAuthenticated (authenticateIn server user domain credentials).1 = true
  admits : Admits m (user, domain) server.randoms

/-- A `LOGIN` that is admitted to the pool. -/
structure Creates (server : Server) (request : ClientRequest) (credentials : Authentication)
    (m : SessionsManager) : Prop where
  uri : requestURI request = "/japi_session"
  mode : request.getVars "mode" = "LOGIN"
  token : server.usingCSRFToken = true → request.csrfTokenHeader = "00112233445566778899"
  admitted : Admitted server credentials m (request.postVars "user") (request.postVars "domain")

/-- The two ways in which a request leaves a handler without a session. -/
inductive BareOutcome (server : Server) (request : ClientRequest) (credentials : Authentication)
    (m : SessionsManager) (cookies : Cookies) : Option RetCode × Handler → Prop where
  | idle (code : Option RetCode) (m' : SessionsManager) : m'.sessions = m.sessions →
      ¬Creates server request credentials m →
      BareOutcome server request credentials m cookies (code, bare m' cookies)
  | created (m' : SessionsManager) (s : WebSession) (age : Nat) :
      m'.sessions = m.sessions.insert server.randoms.sessionId ⟨some s, 0⟩ →
      s.authSession.sessionId = server.randoms.sessionId → Creates server request credentials m →
      BareOutcome server request credentials m cookies (some .ok,
        { bare m' (if server.usingCSRFToken then cookies
            else cookies.setSecureCookie "sessionId" server.randoms.sessionId age "") with
          sSessionId := server.randoms.sessionId })

theorem createAuthentication_cases (server : Server) (credentials : Authentication) (m : SessionsManager)
    (cookies : Cookies) (user domain : String) :
    ∃ reason id m', createAuthentication server user domain credentials (bare m cookies) =
        (reason, id, bare m' cookies) ∧
      (Admitted server credentials m user domain ∧ id = server.randoms.sessionId ∧ (∃ s : WebSession,
          s.authSession.sessionId = server.randoms.sessionId ∧
          m'.sessions = m.sessions.insert server.randoms.sessionId ⟨some s, 0⟩) ∨
        ¬Admitted server credentials m user domain ∧ id = "" ∧ m'.sessions = m.sessions) := by
  unfold createAuthentication
  by_cases index : credentials.iPassIDX = 0
  case neg =>
    simp only [ne_eq, index, not_false_eq_true, if_true]
    exact ⟨_, _, m, rfl, .inr ⟨fun admitted => index admitted.index, rfl, rfl⟩⟩
  by_cases accepted : isPasswordAuthenticated (authenticateIn server user domain credentials).1 = true
  case neg =>
    simp only [ne_eq, index, not_true_eq_false, accepted, Bool.false_eq_true, if_false]
    exact ⟨_, _, m, rfl, .inr ⟨fun admitted => accepted admitted.accepted, rfl, rfl⟩⟩
  simp only [ne_eq, index, not_true_eq_false, accepted, if_true, if_false]
  refine ⟨_, _, _, rfl, ?_⟩
  have pair := userDomainPair_loginSession server user domain
    (authenticateIn server user domain credentials).2 accepted
  rcases createWebSession_admits m (loginSession server user domain 0
    (authenticateIn server user domain credentials).1 (authenticateIn server user domain credentials).2)
    server.randoms with ⟨admits, id, made⟩ | ⟨refused, id, sessions⟩
  · exact .inl ⟨⟨index, accepted, pair ▸ admits⟩, id, made⟩
  · exact .inr ⟨fun admitted => refused (pair.symm ▸ admitted.admits), id, sessions⟩

section
variable {server : Server} {request : ClientRequest} {credentials : Authentication}
  {m : SessionsManager} {cookies : Cookies}

theorem login_outcome (uri : requestURI request = "/japi_session")
    (mode : request.getVars "mode" = "LOGIN")
    (token : server.usingCSRFToken = true → request.csrfTokenHeader = "00112233445566778899") :
    let result := procJAPISessionLOGIN server request credentials (bare m cookies)
    BareOutcome server request credentials m cookies (some result.1, result.2) := by
  obtain ⟨reason, id, m', made, ⟨admitted, rfl, s, named, sessions⟩ | ⟨refused, rfl, sessions⟩⟩ :=
    createAuthentication_cases server credentials m cookies (request.postVars "user")
      (request.postVars "domain")
  · have opened : m'.openSession server.now server.randoms.sessionId =
        (some (s, m'.timeLeft server.now s), { m' with
          sessions := m.sessions.insert server.randoms.sessionId ⟨some s, 1⟩ }) := by
      simp only [SessionsManager.openSession, SafeMap.openElement, sessions, Library.get_insert_self,
        AList.insert_insert]
    have released : ({ m' with sessions := m.sessions.insert server.randoms.sessionId ⟨some s, 1⟩ } :
          SessionsManager).releaseSession server.randoms.sessionId =
        (.yes, { m' with sessions := m.sessions.insert server.randoms.sessionId ⟨some s, 0⟩ }) := by
      simp only [SessionsManager.releaseSession, SafeMap.releaseElement, Library.get_insert_self,
        AList.insert_insert]
    have manager : (bare m' cookies).sessionsManager = m' := rfl
    simp only [procJAPISessionLOGIN, made, ne_eq, server.randoms.sessionId_ne_empty, not_false_eq_true,
      if_true, manager, opened, released]
    exact .created _ s (m'.timeLeft server.now s) rfl named ⟨uri, mode, token, admitted⟩
  · simp only [procJAPISessionLOGIN, made, ne_eq, not_true_eq_false, if_false]
    exact .idle _ m' sessions fun creates => refused creates.admitted

theorem procOpened_bare (uri : requestURI request = "/japi_session") :
    let result := procOpened server request credentials (bare m cookies)
    BareOutcome server request credentials m cookies (some result.1, result.2) := by
  have idle : ∀ code, ¬Creates server request credentials m →
      BareOutcome server request credentials m cookies (some code, bare m cookies) :=
    fun code none => .idle _ m rfl none
  have mode : let result := procMode server request credentials (bare m cookies)
      BareOutcome server request credentials m cookies (some result.1, result.2) := by
    simp only [procMode, current_bare]
    split
    · rename_i login
      refine login_outcome uri login.1 fun csrf => ?_
      simpa [csrf] using login.2
    · rename_i other
      refine idle _ fun creates => other ⟨creates.mode, ?_⟩
      cases csrf : server.usingCSRFToken with
      | false => exact .inl rfl
      | true => exact .inr (creates.token csrf)
  by_cases csrf : server.usingCSRFToken = true
  · simp only [procOpened, checkCSRF, csrf, if_true, current_bare]
    by_cases login : request.getVars "mode" = "LOGIN"
    · simpa only [login, decide_true] using mode
    · simpa only [login, decide_false] using idle _ fun creates => login creates.mode
  · simp only [procOpened, checkCSRF, csrf]
    exact mode

theorem exec_bare (uri : requestURI request ≠ "/japi_session") (extraCredentials : List Authentication) :
    BareOutcome server request credentials m cookies
      (procJAPIExec server request extraCredentials (bare m cookies)) := by
  have idle : ∀ code, BareOutcome server request credentials m cookies (code, bare m cookies) :=
    fun code => .idle code m rfl fun creates => uri creates.uri
  unfold procJAPIExec
  simp only [authSession_bare, Option.isNone_none, and_true]
  split
  · exact idle _
  · split
    · exact idle _
    · split
      · exact idle _
      · split
        · exact idle _
        · split <;> exact idle _

end

/-! ## The request as a whole -/

/-- An `AUTHCSRF` opens again, with the posted id. -/
structure Reopens (server : Server) (request : ClientRequest) : Prop where
  uri : requestURI request = "/japi_session"
  csrf : server.usingCSRFToken = true
  mode : request.getVars "mode" = "AUTHCSRF"

/-- The jar after the opening with the cookie has failed. -/
def failedJar (request : ClientRequest) : Cookies :=
  if request.sessionIdCookie ≠ "" then Cookies.addClearSecureCookie ∅ "sessionId" "/" else ∅

/-- The session that a request opens, and the jar at that point. -/
inductive Opens (server : Server) (request : ClientRequest) (m : SessionsManager) : String → Cookies → Prop where
  | cookie : sessionAt m request.sessionIdCookie ≠ none → Opens server request m request.sessionIdCookie ∅
  | posted : sessionAt m request.sessionIdCookie = none → Reopens server request →
      Opens server request m (request.postVars "sessionId") (failedJar request)

/-- A request that opens no session, and the jar after the attempts. -/
inductive OpensNone (server : Server) (request : ClientRequest) (m : SessionsManager) : Cookies → Prop where
  | once : sessionAt m request.sessionIdCookie = none → ¬Reopens server request →
      OpensNone server request m (failedJar request)
  | twice : sessionAt m request.sessionIdCookie = none → Reopens server request →
      sessionAt m (request.postVars "sessionId") = none →
      OpensNone server request m (if request.postVars "sessionId" ≠ "" then
        (failedJar request).addClearSecureCookie "sessionId" "/" else failedJar request)

/-- Every request: it is malformed, it holds a session, or it holds none. -/
inductive Run (server : Server) (request : ClientRequest) (m : SessionsManager) :
    Option RetCode × Handler → Prop where
  | malformed : server.multiAuthsFromString (request.postVars "extraAuth") = none ∨
        server.authenticationFromString (request.postVars "auth") = none →
      Run server request m (some .badRequest, new m request.sessionIdCookie)
  | held {id : String} {s : WebSession} {readers age : Nat} {cookies : Cookies}
      {extraCredentials : List Authentication} {credentials : Authentication} {code : RetCode} {h : Handler} :
      server.multiAuthsFromString (request.postVars "extraAuth") = some extraCredentials →
      server.authenticationFromString (request.postVars "auth") = some credentials →
      Opens server request m id cookies → m.sessions.get id = some ⟨some s, readers⟩ →
      Outcome server request credentials m id s readers age cookies h →
      Run server request m (some code, sessionDestroy (sessionRelease h))
  | bare {cookies : Cookies} {extraCredentials : List Authentication} {credentials : Authentication}
      {result : Option RetCode × Handler} :
      server.multiAuthsFromString (request.postVars "extraAuth") = some extraCredentials →
      server.authenticationFromString (request.postVars "auth") = some credentials →
      OpensNone server request m cookies →
      BareOutcome server request credentials m cookies result → Run server request m result

/-- No id is empty, and every session is stored under its own id. -/
def WellNamed (sessions : SafeMap String WebSession) : Prop :=
  ∀ id entry, sessions.get id = some entry → id ≠ "" ∧ ∀ s ∈ entry.rdElement, s.authSession.sessionId = id

theorem WellNamed.session {sessions : SafeMap String WebSession} (named : WellNamed sessions) {id : String}
    {s : WebSession} {readers : Nat} (found : sessions.get id = some ⟨some s, readers⟩) :
    s.authSession.sessionId = id := (named _ _ found).2 s rfl

/-- The clean-up that ends every request which has not faulted. -/
def cleanUp : Option RetCode × Handler → Option RetCode × Handler
  | (none, h) => (none, h)
  | (some ret, h) => (some ret, sessionDestroy (sessionRelease h))

section
variable {server : Server} {request : ClientRequest} {m : SessionsManager}
  {extraCredentials : List Authentication} {credentials : Authentication}

theorem sessionOpen_bare (id : String) (cookies : Cookies) (missing : sessionAt m id = none) :
    sessionOpen server { bare m cookies with sSessionId := id } =
      bare m (if id ≠ "" then cookies.addClearSecureCookie "sessionId" "/" else cookies) :=
  sessionOpen_missing server rfl missing

/-- The clean-up does nothing for a handler without a session. -/
theorem BareOutcome.cleanUp_eq {cookies : Cookies} {result : Option RetCode × Handler}
    (outcome : BareOutcome server request credentials m cookies result) : cleanUp result = result := by
  cases outcome with
  | idle code => cases code <;> rfl
  | created => rfl

/-- The dispatch without a session, unless a second opening finds one. -/
theorem dispatch_bare {cookies : Cookies} (once : ¬Reopens server request) :
    BareOutcome server request credentials m cookies
      (dispatch server request extraCredentials credentials (bare m cookies)) := by
  unfold dispatch
  by_cases uri : requestURI request = "/japi_session"
  · have kept : reopen server request (bare m cookies) = bare m cookies :=
      if_neg fun again => once ⟨uri, again.2.1, again.2.2⟩
    simp only [uri, procJAPISession, kept]
    exact procOpened_bare uri
  · have idle : ∀ code, BareOutcome server request credentials m cookies (code, bare m cookies) :=
      fun code => .idle code m rfl fun creates => uri creates.uri
    split
    · exact exec_bare uri extraCredentials
    · split
      · exact idle _
      · rw [procResourceFile, current_bare]
        exact idle _

theorem dispatch_reopens {cookies : Cookies} (again : Reopens server request) :
    dispatch server request extraCredentials credentials (bare m cookies) =
      let result := procOpened server request credentials
        (sessionOpen server { bare m cookies with sSessionId := request.postVars "sessionId" })
      (some result.1, result.2) := by
  have reopened : reopen server request (bare m cookies) =
      sessionOpen server { bare m cookies with sSessionId := request.postVars "sessionId" } :=
    if_pos ⟨rfl, again.csrf, again.mode⟩
  simp [dispatch, again.uri, procJAPISession, reopened]

end

theorem run_dispatch {server : Server} {request : ClientRequest} {m : SessionsManager}
    {extraCredentials : List Authentication} {credentials : Authentication} (named : WellNamed m.sessions)
    (extra : server.multiAuthsFromString (request.postVars "extraAuth") = some extraCredentials)
    (auth : server.authenticationFromString (request.postVars "auth") = some credentials) :
    Run server request m (cleanUp (dispatch server request extraCredentials credentials
      (sessionOpen server (new m request.sessionIdCookie)))) := by
  cases opened : sessionAt m request.sessionIdCookie with
  | some s =>
    obtain ⟨readers, found⟩ := sessionAt_eq_some_iff.mp opened
    have opening : sessionOpen server (new m request.sessionIdCookie) =
        holding m request.sessionIdCookie s readers (m.timeLeft server.now s) ∅ :=
      sessionOpen_live server rfl rfl found
    rw [opening]
    obtain ⟨code, h, result, outcome⟩ := dispatch_outcome (named.session found) (named _ _ found).1
    rw [result]
    exact .held extra auth (.cookie (by rw [opened]; exact Option.some_ne_none s)) found outcome
  | none =>
    have opening : sessionOpen server (new m request.sessionIdCookie) = bare m (failedJar request) :=
      sessionOpen_bare request.sessionIdCookie ∅ opened
    rw [opening]
    by_cases again : Reopens server request
    case neg =>
      have outcome : BareOutcome server request credentials m (failedJar request)
          (dispatch server request extraCredentials credentials (bare m (failedJar request))) :=
        dispatch_bare again
      rw [outcome.cleanUp_eq]
      exact .bare extra auth (.once opened again) outcome
    simp only [dispatch_reopens again]
    cases posted : sessionAt m (request.postVars "sessionId") with
    | some s =>
      obtain ⟨readers, found⟩ := sessionAt_eq_some_iff.mp posted
      rw [sessionOpen_live server rfl rfl found]
      exact .held extra auth (.posted opened again) found
        (procOpened_outcome (named.session found) again.uri)
    | none =>
      rw [sessionOpen_bare _ _ posted]
      generalize jar : (if request.postVars "sessionId" ≠ "" then
        (failedJar request).addClearSecureCookie "sessionId" "/" else failedJar request) = cookies
      have outcome : BareOutcome server request credentials m cookies
          (some (procOpened server request credentials (bare m cookies)).1,
            (procOpened server request credentials (bare m cookies)).2) := procOpened_bare again.uri
      rw [outcome.cleanUp_eq]
      exact .bare extra auth (jar ▸ .twice opened again posted) outcome

theorem run_request (server : Server) (request : ClientRequest) {m : SessionsManager} (named : WellNamed m.sessions) :
    Run server request m (procHTTPClientContent server request m) := by
  unfold procHTTPClientContent
  cases extra : server.multiAuthsFromString (request.postVars "extraAuth") with
  | none => exact .malformed (.inl extra)
  | some extraCredentials =>
    cases auth : server.authenticationFromString (request.postVars "auth") with
    | none => exact .malformed (.inr auth)
    | some credentials =>
      simp only
      exact run_dispatch named extra auth

end Mantids.RPC.Handler
