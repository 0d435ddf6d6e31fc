import Mantids.RPC.PoolRuns

/-! What a request may do without the token of its session: with `usingCSRFToken`
no method runs, and no session mode but the three that come before a token. -/

set_option autoImplicit false

namespace Mantids.RPC

open Auth

namespace Handler

section
variable (server : Server) (request : ClientRequest) (m : SessionsManager)

/-- The handler of the request once it has looked its cookie up. -/
def opened : Handler := sessionOpen server (new m request.sessionIdCookie)

/-- The request opened a confirmed session and carries its token. -/
def CarriesToken : Prop :=
  ∃ webSession, (opened server request m).current = some webSession ∧ webSession.bAuthTokenConfirmed = true ∧
    request.csrfTokenHeader = webSession.sCSRFToken

/-- The method goes to `runRPCMethod` when the verdict on it is positive, and only then is the code 200. -/
def Executes (methodName : String) : Prop :=
  requestURI request = "/japi_exec" ∧ request.getVars "method" = methodName ∧
    ∃ extraCredentials, server.multiAuthsFromString (request.postVars "extraAuth") = some extraCredentials ∧
      (procJAPIExec server request extraCredentials (opened server request m)).1 = some .ok

/-- A session request of the mode does something: it is not answered 404 with all left as it was. -/
def TakesEffect (sMode : String) : Prop :=
  requestURI request = "/japi_session" ∧ request.getVars "mode" = sMode ∧
    ∃ credentials, server.authenticationFromString (request.postVars "auth") = some credentials ∧
      procJAPISession server request credentials (opened server request m) ≠ (.notFound, opened server request m)

end

section
variable {server : Server} {request : ClientRequest} {h : Handler}

theorem csrfValidate_iff (guarded : server.usingCSRFToken = true) : csrfValidate server request h = true ↔
    ∃ webSession, h.current = some webSession ∧ webSession.bAuthTokenConfirmed = true ∧
      request.csrfTokenHeader = webSession.sCSRFToken := by
  simp [csrfValidate, guarded, WebSession.validateCSRFToken, Option.any_eq_true]

theorem procJAPIExec_refused {extraAuths : List Authentication} (refused : csrfValidate server request h = false) :
    procJAPIExec server request extraAuths h = (some .notFound, h) := by
  unfold procJAPIExec
  simp only [refused, Bool.not_false, if_true]

/-- Only the mode `AUTHCSRF` opens a second session. -/
theorem reopen_other (other : request.getVars "mode" ≠ "AUTHCSRF") : reopen server request h = h := by
  unfold reopen
  simp [other]

/-- The two cascades agree on every mode that is none of the three. -/
theorem checkCSRF_other (guarded : server.usingCSRFToken = true) (login : request.getVars "mode" ≠ "LOGIN")
    (auth : request.getVars "mode" ≠ "AUTHCSRF") (token : request.getVars "mode" ≠ "CSRFTOKEN") :
    checkCSRF server request h = (csrfValidate server request h, .notFound, h) := by
  unfold checkCSRF csrfValidate
  simp only [guarded, if_true]
  cases h.current with
  | none =>
    -- without a session the one mode that goes on is LOGIN
    simp [login]
  | some webSession =>
    by_cases valid : webSession.bAuthTokenConfirmed = true ∧ webSession.validateCSRFToken request.csrfTokenHeader = true
    · simp [auth, valid]
    · have refused : (webSession.bAuthTokenConfirmed && webSession.validateCSRFToken request.csrfTokenHeader) = false := by
        simpa using valid
      simp [auth, valid, token, refused]

theorem procJAPISession_refused {credentials : Authentication} (guarded : server.usingCSRFToken = true)
    (login : request.getVars "mode" ≠ "LOGIN") (auth : request.getVars "mode" ≠ "AUTHCSRF")
    (token : request.getVars "mode" ≠ "CSRFTOKEN") (refused : csrfValidate server request h = false) :
    procJAPISession server request credentials h = (.notFound, h) := by
  unfold procJAPISession procOpened
  rw [reopen_other auth, checkCSRF_other guarded login auth token, refused]

end

/-! ## Every request -/

theorem csrfProtected (server : Server) (guarded : server.usingCSRFToken = true) (request : ClientRequest)
    (m : SessionsManager) :
    (∀ methodName, Executes server request m methodName → CarriesToken server request m) ∧
    ∀ sMode, sMode ≠ "LOGIN" → sMode ≠ "AUTHCSRF" → sMode ≠ "CSRFTOKEN" →
      TakesEffect server request m sMode → CarriesToken server request m := by
  have carries : csrfValidate server request (opened server request m) = true → CarriesToken server request m :=
    (csrfValidate_iff guarded).mp
  constructor
  · rintro methodName ⟨_, _, extraCredentials, _, executed⟩
    apply carries
    by_contra refused
    rw [procJAPIExec_refused (Bool.eq_false_iff.mpr refused)] at executed
    cases executed
  · rintro sMode login auth token ⟨_, rfl, credentials, _, effect⟩
    apply carries
    by_contra refused
    exact effect (procJAPISession_refused guarded login auth token (Bool.eq_false_iff.mpr refused))

/-- A confirmed session of bob logs out with its token. -/
theorem csrfProtected_logout :
    CarriesToken sampleServer (sessionRequest "LOGOUT" "a:b" "d")
      { SessionsManager.new with
        sessions := AList.singleton "a:b" ⟨some ⟨Session.new "a:b" 0 0, true, "c", "d"⟩, 0⟩ } := by
  apply (csrfProtected sampleServer rfl _ _).2 "LOGOUT" (by decide) (by decide) (by decide)
  refine ⟨by decide, rfl, ⟨"", 0⟩, rfl, fun same => ?_⟩
  have code := congrArg Prod.fst same
  revert code
  decide

end Handler

end Mantids.RPC
