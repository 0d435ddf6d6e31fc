import Mantids.RPC.PoolRuns

/-! What the session cookie of a response says about the pool that the request leaves. -/

set_option autoImplicit false

namespace Mantids.RPC

open Auth Threads

namespace Handler

/-- The request puts a new session into the pool. -/
def Created (m : SessionsManager) (h : Handler) (id : String) : Prop :=
  m.sessions.get id = none ∧ sessionAt h.sessionsManager id ≠ none

/-- The request confirms the token of a session of the pool. -/
def Confirmed (m : SessionsManager) (h : Handler) (id : String) : Prop :=
  (∃ s, sessionAt m id = some s ∧ s.bAuthTokenConfirmed = false) ∧
    ∃ s, sessionAt h.sessionsManager id = some s ∧ s.bAuthTokenConfirmed = true

/-- The request is well formed, and its cookie names no session. -/
structure Stale (server : Server) (request : ClientRequest) (m : SessionsManager) : Prop where
  extra : server.multiAuthsFromString (request.postVars "extraAuth") ≠ none
  auth : server.authenticationFromString (request.postVars "auth") ≠ none
  nonempty : request.sessionIdCookie ≠ ""
  unknown : sessionAt m request.sessionIdCookie = none

/-- The session cookie with which a request on the pool `m` answers tells the truth. -/
structure Truthful (server : Server) (request : ClientRequest) (m : SessionsManager) (h : Handler) : Prop where
  live : ∀ cookie, h.cookies.get "sessionId" = some cookie → cookie.value ≠ "" →
    (h.webSession = some cookie.value ∨ Created m h cookie.value) ∧
      ∃ s, sessionAt h.sessionsManager cookie.value = some s ∧
        (server.usingCSRFToken = true → s.bAuthTokenConfirmed = true)
  created : server.usingCSRFToken = false → ∀ id, Created m h id →
    (h.cookies.get "sessionId").map (·.value) = some id
  confirmed : ∀ id, Confirmed m h id → (h.cookies.get "sessionId").map (·.value) = some id
  destroyed : h.bDestroySession = true → h.cookies.get "sessionId" = some clearingCookie
  unknown : Stale server request m → (∀ id, ¬Created m h id) → (∀ id, ¬Confirmed m h id) →
    h.cookies.get "sessionId" = some clearingCookie

/-- The session that a request opens before the jar has a session cookie. -/
def OpensFirst (server : Server) (request : ClientRequest) (m : SessionsManager) (s : WebSession) : Prop :=
  sessionAt m request.sessionIdCookie = some s ∨
    request.sessionIdCookie = "" ∧ Reopens server request ∧ sessionAt m (request.postVars "sessionId") = some s

/-- The requests whose answer does not tell the truth: a login or a confirmation that
comes with a stale cookie, and a request that opens an unconfirmed session. -/
inductive Misleads (server : Server) (request : ClientRequest) (m : SessionsManager) : Prop where
  | staleLogin {credentials : Authentication} : Stale server request m → server.usingCSRFToken = false →
      server.authenticationFromString (request.postVars "auth") = some credentials →
      Creates server request credentials m → Misleads server request m
  | staleConfirmation {s : WebSession} : Stale server request m →
      sessionAt m (request.postVars "sessionId") = some s → Confirms server request s →
      Misleads server request m
  | unconfirmed {s : WebSession} : server.multiAuthsFromString (request.postVars "extraAuth") ≠ none →
      server.authenticationFromString (request.postVars "auth") ≠ none → server.usingCSRFToken = true →
      OpensFirst server request m s → s.bAuthTokenConfirmed = false → ¬Confirms server request s →
      Misleads server request m

/-! ## The jar before the answer -/

section
variable {server : Server} {request : ClientRequest} {m : SessionsManager} {cookies : Cookies}

theorem failedJar_sessionId : (failedJar request).get "sessionId" =
    if request.sessionIdCookie ≠ "" then some clearingCookie else none := by
  unfold failedJar
  split
  · exact Cookies.get_addClearSecureCookie ..
  · rfl

theorem OpensNone.unknown (none : OpensNone server request m cookies) :
    sessionAt m request.sessionIdCookie = .none := by
  cases none <;> assumption

theorem OpensNone.jar (none : OpensNone server request m cookies) :
    cookies.get "sessionId" = some clearingCookie ∨
      cookies.get "sessionId" = .none ∧ request.sessionIdCookie = "" := by
  cases none with
  | once =>
    rw [failedJar_sessionId]
    by_cases empty : request.sessionIdCookie = "" <;> simp [empty]
  | twice =>
    by_cases posted : request.postVars "sessionId" = ""
    · rw [if_neg (not_not_intro posted), failedJar_sessionId]
      by_cases empty : request.sessionIdCookie = "" <;> simp [empty]
    · rw [if_pos posted]
      exact .inl (Cookies.get_addClearSecureCookie ..)

theorem OpensNone.jar_of_login (none : OpensNone server request m cookies)
    (mode : request.getVars "mode" = "LOGIN") : cookies.get "sessionId" =
      if request.sessionIdCookie ≠ "" then some clearingCookie else .none := by
  cases none with
  | once => exact failedJar_sessionId
  | twice _ again => exact absurd (again.mode.symm.trans mode) (by decide)

end

/-! ## When an answer misleads -/

section
variable {server : Server} {request : ClientRequest} {m : SessionsManager} {cookies : Cookies}
  {extraCredentials : List Authentication} {credentials : Authentication}

theorem stale_of_parsed (extra : server.multiAuthsFromString (request.postVars "extraAuth") = some extraCredentials)
    (auth : server.authenticationFromString (request.postVars "auth") = some credentials)
    (nonempty : request.sessionIdCookie ≠ "") (unknown : sessionAt m request.sessionIdCookie = none) :
    Stale server request m where
  extra := by simp [extra]
  auth := by simp [auth]
  nonempty := nonempty
  unknown := unknown

section
variable (extra : server.multiAuthsFromString (request.postVars "extraAuth") = some extraCredentials)
  (auth : server.authenticationFromString (request.postVars "auth") = some credentials)
include extra auth

theorem misleads_iff_of_cookie {s : WebSession} (nonempty : request.sessionIdCookie ≠ "")
    (live : sessionAt m request.sessionIdCookie = some s) :
    Misleads server request m ↔
      server.usingCSRFToken = true ∧ s.bAuthTokenConfirmed = false ∧ ¬Confirms server request s := by
  constructor
  · intro misleads
    cases misleads with
    | staleLogin stale => simp [stale.unknown] at live
    | staleConfirmation stale => simp [stale.unknown] at live
    | unconfirmed _ _ csrf opens unconfirmed notConfirms =>
      rcases opens with same | ⟨empty, -⟩
      · cases live.symm.trans same
        exact ⟨csrf, unconfirmed, notConfirms⟩
      · contradiction
  · rintro ⟨csrf, unconfirmed, notConfirms⟩
    exact .unconfirmed (by simp [extra]) (by simp [auth]) csrf (.inl live) unconfirmed notConfirms

theorem misleads_iff_of_posted {s : WebSession} (unknown : sessionAt m request.sessionIdCookie = none)
    (again : Reopens server request) (live : sessionAt m (request.postVars "sessionId") = some s) :
    Misleads server request m ↔
      if request.sessionIdCookie = "" then s.bAuthTokenConfirmed = false ∧ ¬Confirms server request s
      else Confirms server request s := by
  constructor
  · intro misleads
    cases misleads with
    | staleLogin _ _ _ creates => exact absurd (again.mode.symm.trans creates.mode) (by decide)
    | staleConfirmation stale same confirms =>
      cases live.symm.trans same
      rw [if_neg stale.nonempty]
      exact confirms
    | unconfirmed _ _ _ opens unconfirmed notConfirms =>
      rcases opens with same | ⟨empty, -, same⟩
      · simp [unknown] at same
      · cases live.symm.trans same
        rw [if_pos empty]
        exact ⟨unconfirmed, notConfirms⟩
  · split
    · rename_i empty
      rintro ⟨unconfirmed, notConfirms⟩
      exact .unconfirmed (by simp [extra]) (by simp [auth]) again.csrf (.inr ⟨empty, again, live⟩)
        unconfirmed notConfirms
    · rename_i nonempty
      exact .staleConfirmation (stale_of_parsed extra auth nonempty unknown) live

theorem misleads_iff_of_none (none : OpensNone server request m cookies) :
    Misleads server request m ↔ request.sessionIdCookie ≠ "" ∧ server.usingCSRFToken = false ∧
      Creates server request credentials m := by
  constructor
  · intro misleads
    cases misleads with
    | staleLogin stale csrf auth' creates =>
      cases auth.symm.trans auth'
      exact ⟨stale.nonempty, csrf, creates⟩
    | staleConfirmation stale live confirms =>
      cases none with
      | once _ never => exact absurd ⟨confirms.uri, confirms.csrf, confirms.mode⟩ never
      | twice _ _ gone => simp [gone] at live
    | unconfirmed _ _ _ opens =>
      rcases opens with live | ⟨-, again, live⟩
      · simp [none.unknown] at live
      · cases none with
        | once _ never => contradiction
        | twice _ _ gone => simp [gone] at live
  · rintro ⟨nonempty, csrf, creates⟩
    exact .staleLogin (stale_of_parsed extra auth nonempty none.unknown) csrf auth creates

end

end

/-! ## Answers -/

section
variable {server : Server} {request : ClientRequest} {m : SessionsManager} {h : Handler}

/-- An answer without a session, for a request that leaves the pool as it is. -/
theorem truthful_silent (same : h.sessionsManager.sessions = m.sessions) (quiet : h.bDestroySession = false)
    (silent : h.cookies.get "sessionId" = some clearingCookie ∨
      h.cookies.get "sessionId" = none ∧ ¬Stale server request m) : Truthful server request m h where
  live := by
    intro cookie answered named
    rcases silent with cleared | ⟨empty, -⟩
    · rw [cleared] at answered
      cases answered
      contradiction
    · simp [empty] at answered
  created := by
    rintro - id ⟨fresh, present⟩
    simp [sessionAt, same, fresh] at present
  confirmed := by
    rintro id ⟨⟨s, before, unconfirmed⟩, s', after, confirmed⟩
    have kept : sessionAt h.sessionsManager id = sessionAt m id := by simp only [sessionAt, same]
    cases (before.symm.trans (kept.symm.trans after))
    rw [confirmed] at unconfirmed
    contradiction
  destroyed := by
    intro ordered
    rw [quiet] at ordered
    contradiction
  unknown := by
    intro stale _ _
    rcases silent with cleared | ⟨-, found⟩
    · exact cleared
    · contradiction

section
variable {id : String} {s : WebSession} {readers : Nat} {entry : Option (SMapElement WebSession)}
  {cookie : Cookie} {destroy : Bool} (found : m.sessions.get id = some ⟨some s, readers⟩)
  (leaves : Leaves m id entry cookie destroy h)
include leaves

theorem Leaves.sessionAt (other : String) : sessionAt h.sessionsManager other =
    if other = id then entry.bind (·.rdElement) else sessionAt m other := by
  simp only [Handler.sessionAt, leaves.sessions]
  split <;> rfl

include found

theorem Leaves.not_created (other : String) : ¬Created m h other := by
  rintro ⟨fresh, present⟩
  rw [leaves.sessionAt] at present
  by_cases here : other = id
  · rw [here, found] at fresh
    contradiction
  · rw [if_neg here] at present
    simp [Handler.sessionAt, fresh] at present

theorem Leaves.confirmed_iff (other : String) : Confirmed m h other ↔ other = id ∧
    s.bAuthTokenConfirmed = false ∧ ∃ s', entry.bind (·.rdElement) = some s' ∧ s'.bAuthTokenConfirmed = true := by
  have before : Handler.sessionAt m id = some s := sessionAt_eq_some_iff.mpr ⟨readers, found⟩
  unfold Confirmed
  rw [leaves.sessionAt]
  by_cases here : other = id
  · simp [here, before]
  · rw [if_neg here]
    simp only [here, false_and, iff_false]
    rintro ⟨⟨s, first, unconfirmed⟩, s', last, confirmed⟩
    cases first.symm.trans last
    rw [confirmed] at unconfirmed
    contradiction

/-- A cleared cookie is the truth unless the session has just been confirmed. -/
theorem truthful_cleared_iff (nonempty : id ≠ "") (cleared : cookie = clearingCookie) :
    Truthful server request m h ↔ ¬Confirmed m h id := by
  subst cleared
  constructor
  · intro truthful confirmed
    have answer := truthful.confirmed id confirmed
    rw [leaves.cookie] at answer
    cases answer
    exact nonempty rfl
  · intro unconfirmed
    have none : ∀ other, ¬Confirmed m h other := by
      intro other confirmed
      obtain ⟨rfl, _⟩ := (leaves.confirmed_iff found other).mp confirmed
      contradiction
    constructor
    · intro cookie answered named
      rw [leaves.cookie] at answered
      cases answered
      contradiction
    · rintro - other created
      exact absurd created (leaves.not_created found other)
    · intro other confirmed
      exact absurd confirmed (none other)
    · intro _
      exact leaves.cookie
    · intro _ _ _
      exact leaves.cookie

theorem truthful_answered_iff {s' : WebSession} {left : Nat} (nonempty : id ≠ "") (quiet : destroy = false)
    (value : cookie.value = id) (live : entry = some ⟨some s', left⟩) (fresh : ¬Stale server request m) :
    Truthful server request m h ↔ (server.usingCSRFToken = true → s'.bAuthTokenConfirmed = true) := by
  have after : Handler.sessionAt h.sessionsManager id = some s' := by
    rw [leaves.sessionAt, if_pos rfl, live]
    rfl
  constructor
  · intro truthful csrf
    obtain ⟨-, s'', same, confirmed⟩ := truthful.live cookie leaves.cookie (value.symm ▸ nonempty)
    rw [value, after] at same
    cases same
    exact confirmed csrf
  · intro confirmed
    constructor
    · intro cookie' answered _
      rw [leaves.cookie] at answered
      cases answered
      rw [value]
      exact ⟨.inl leaves.webSession, s', after, confirmed⟩
    · rintro - other created
      exact absurd created (leaves.not_created found other)
    · intro other confirmed
      obtain ⟨rfl, _⟩ := (leaves.confirmed_iff found other).mp confirmed
      rw [leaves.cookie, Option.map_some, value]
    · intro ordered
      rw [leaves.destroy, quiet] at ordered
      contradiction
    · intro stale
      contradiction

end

theorem truthful_created_iff {id : String} {s : WebSession} (fresh : m.sessions.get id = none)
    (same : h.sessionsManager.sessions = m.sessions.insert id ⟨some s, 0⟩) (quiet : h.bDestroySession = false)
    (answer : ∀ cookie, h.cookies.get "sessionId" = some cookie → cookie.value ≠ "" →
      cookie.value = id ∧ server.usingCSRFToken = false) :
    Truthful server request m h ↔
      (server.usingCSRFToken = false → (h.cookies.get "sessionId").map (·.value) = some id) := by
  have after : ∀ other, sessionAt h.sessionsManager other = if other = id then some s else sessionAt m other := by
    intro other
    simp only [sessionAt, same, Library.get_insert]
    split <;> rfl
  have created : Created m h id := ⟨fresh, by simp [after]⟩
  constructor
  · intro truthful csrf
    exact truthful.created csrf id created
  · intro told
    constructor
    · intro cookie answered named
      obtain ⟨rfl, csrf⟩ := answer cookie answered named
      exact ⟨.inr created, s, by simp [after], by simp [csrf]⟩
    · rintro csrf other ⟨unused, present⟩
      by_cases here : other = id
      · exact here ▸ told csrf
      · rw [after, if_neg here] at present
        simp [sessionAt, unused] at present
    · rintro other ⟨⟨s, before, unconfirmed⟩, s', last, confirmed⟩
      have different : other ≠ id := by
        rintro rfl
        simp [sessionAt, fresh] at before
      rw [after, if_neg different] at last
      cases before.symm.trans last
      rw [confirmed] at unconfirmed
      contradiction
    · intro ordered
      rw [quiet] at ordered
      contradiction
    · intro _ none
      exact absurd created (none id)

end

/-! ## The request -/

section
variable {server : Server} {request : ClientRequest} {m : SessionsManager}

theorem truthful_bare_iff {extraCredentials : List Authentication} {credentials : Authentication}
    {cookies : Cookies} {result : Option RetCode × Handler}
    (extra : server.multiAuthsFromString (request.postVars "extraAuth") = some extraCredentials)
    (auth : server.authenticationFromString (request.postVars "auth") = some credentials)
    (none : OpensNone server request m cookies)
    (outcome : BareOutcome server request credentials m cookies result) :
    Truthful server request m result.2 ↔ ¬Misleads server request m := by
  rw [misleads_iff_of_none extra auth none]
  cases outcome with
  | idle code m' same notCreates =>
    refine iff_of_true (truthful_silent same rfl ?_) fun misled => notCreates misled.2.2
    rcases none.jar with cleared | ⟨empty, absent⟩
    · exact .inl cleared
    · exact .inr ⟨empty, fun stale => stale.nonempty absent⟩
  | created m' s age same own creates =>
    have jar := none.jar_of_login creates.mode
    have fresh := creates.admitted.admits.2
    by_cases csrf : server.usingCSRFToken = true
    · -- the id of the new session is in the payload only
      rw [truthful_created_iff fresh same rfl]
      · simp [csrf]
      · intro cookie answered named
        simp only [Handler.bare, csrf, if_true, jar] at answered
        split at answered
        · cases answered
          contradiction
        · contradiction
    · by_cases stale : request.sessionIdCookie = ""
      · rw [truthful_created_iff fresh same rfl]
        · simp [Handler.bare, csrf, stale, jar]
        · intro cookie answered named
          simp [Handler.bare, csrf, jar, stale] at answered
          exact ⟨answered ▸ rfl, by simpa using csrf⟩
      · rw [truthful_created_iff fresh same rfl]
        · simp [Handler.bare, csrf, stale, jar, creates, clearingCookie, server.randoms.sessionId_ne_empty.symm]
        · intro cookie answered named
          simp [Handler.bare, csrf, jar, stale] at answered
          subst answered
          contradiction

section
variable {credentials : Authentication} {id : String} {s : WebSession} {readers age : Nat} {cookies : Cookies}
  {h : Handler} (named : WellNamed m.sessions) (found : m.sessions.get id = some ⟨some s, readers⟩)
  (outcome : Outcome server request credentials m id s readers age cookies h)
include named found outcome

/-- The jar was empty when the session was opened. -/
theorem truthful_first_iff (jar : cookies.get "sessionId" = none) (fresh : ¬Stale server request m) :
    Truthful server request m (sessionDestroy (sessionRelease h)) ↔
      ¬(server.usingCSRFToken = true ∧ s.bAuthTokenConfirmed = false ∧ ¬Confirms server request s) := by
  have nonempty := (named _ _ found).1
  cases outcome with
  | kept s' destroy kept notRefused notConfirms accepted =>
    cases destroy with
    | false =>
      refine (truthful_answered_iff found (released_leaves m id s' readers age cookies) nonempty rfl
        (by rw [jar]; rfl) rfl fresh).trans ?_
      rw [kept.confirmed]
      simp [notConfirms]
    | true =>
      have leaves := destroyed_leaves m id s' readers age cookies
      refine (truthful_cleared_iff found leaves nonempty rfl).trans ?_
      rw [leaves.confirmed_iff found]
      apply iff_of_true
      · rintro ⟨-, -, s', after, -⟩
        split at after <;> contradiction
      · rintro ⟨csrf, unconfirmed, -⟩
        rw [accepted rfl csrf] at unconfirmed
        contradiction
  | refused refused =>
    have leaves := refused_leaves m id s readers age cookies named nonempty
    refine (truthful_cleared_iff found leaves nonempty rfl).trans ?_
    rw [leaves.confirmed_iff found]
    simp [refused.confirmed]
  | confirmed confirms =>
    have leaves := released_leaves m id { s with bAuthTokenConfirmed := true } readers age
      (cookies.setSecureCookie "sessionId" id age "")
    refine (truthful_answered_iff found leaves nonempty rfl (by simp [jar]) rfl fresh).trans ?_
    simp [confirms]

/-- The jar had the clearing cookie of the first attempt. -/
theorem truthful_second_iff (jar : cookies.get "sessionId" = some clearingCookie) :
    Truthful server request m (sessionDestroy (sessionRelease h)) ↔ ¬Confirms server request s := by
  have nonempty := (named _ _ found).1
  cases outcome with
  | kept s' destroy kept notRefused notConfirms accepted =>
    cases destroy with
    | false =>
      have leaves := released_leaves m id s' readers age cookies
      refine (truthful_cleared_iff found leaves nonempty (by rw [jar]; rfl)).trans ?_
      rw [leaves.confirmed_iff found]
      simp [notConfirms, kept.confirmed]
    | true =>
      have leaves := destroyed_leaves m id s' readers age cookies
      refine (truthful_cleared_iff found leaves nonempty rfl).trans ?_
      rw [leaves.confirmed_iff found]
      refine iff_of_true ?_ notConfirms
      rintro ⟨-, -, s', after, -⟩
      split at after <;> contradiction
  | refused refused =>
    have leaves := refused_leaves m id s readers age cookies named nonempty
    refine (truthful_cleared_iff found leaves nonempty rfl).trans ?_
    rw [leaves.confirmed_iff found]
    apply iff_of_true
    · simp [refused.confirmed]
    · intro confirms
      exact absurd (refused.confirmed.symm.trans confirms.unconfirmed) (by decide)
  | confirmed confirms =>
    have leaves := released_leaves m id { s with bAuthTokenConfirmed := true } readers age
      (cookies.setSecureCookie "sessionId" id age "")
    refine (truthful_cleared_iff found leaves nonempty (by simp [jar])).trans ?_
    rw [leaves.confirmed_iff found]
    simp [confirms, confirms.unconfirmed]

end

theorem truthful_held_iff {extraCredentials : List Authentication} {credentials : Authentication} {id : String}
    {s : WebSession} {readers age : Nat} {cookies : Cookies} {h : Handler} (named : WellNamed m.sessions)
    (extra : server.multiAuthsFromString (request.postVars "extraAuth") = some extraCredentials)
    (auth : server.authenticationFromString (request.postVars "auth") = some credentials)
    (opens : Opens server request m id cookies) (found : m.sessions.get id = some ⟨some s, readers⟩)
    (outcome : Outcome server request credentials m id s readers age cookies h) :
    Truthful server request m (sessionDestroy (sessionRelease h)) ↔ ¬Misleads server request m := by
  have live : sessionAt m id = some s := sessionAt_eq_some_iff.mpr ⟨readers, found⟩
  cases opens with
  | cookie =>
    rw [misleads_iff_of_cookie extra auth (named _ _ found).1 live]
    apply truthful_first_iff named found outcome rfl
    intro stale
    simp [stale.unknown] at live
  | posted unknown again =>
    rw [misleads_iff_of_posted extra auth unknown again live]
    split
    · rename_i empty
      rw [truthful_first_iff named found outcome (by simp [failedJar_sessionId, empty])
        fun stale => stale.nonempty empty]
      simp [again.csrf]
    · rename_i nonempty
      exact truthful_second_iff named found outcome (by simp [failedJar_sessionId, nonempty])

theorem truthful_request_iff (named : WellNamed m.sessions) (server : Server) (request : ClientRequest) :
    Truthful server request m (procHTTPClientContent server request m).2 ↔ ¬Misleads server request m := by
  have ran := run_request server request named
  generalize procHTTPClientContent server request m = result at ran ⊢
  cases ran with
  | malformed failed =>
    have lost : server.multiAuthsFromString (request.postVars "extraAuth") ≠ none →
        server.authenticationFromString (request.postVars "auth") ≠ none → False := by
      intro extra auth
      rcases failed with none | none <;> contradiction
    refine iff_of_true (truthful_silent rfl rfl (.inr ⟨rfl, fun stale => lost stale.extra stale.auth⟩)) ?_
    intro misleads
    cases misleads with
    | staleLogin stale => exact lost stale.extra stale.auth
    | staleConfirmation stale => exact lost stale.extra stale.auth
    | unconfirmed extra auth => exact lost extra auth
  | held extra auth opens found outcome => exact truthful_held_iff named extra auth opens found outcome
  | bare extra auth none outcome => exact truthful_bare_iff extra auth none outcome

end

end Handler

namespace SessionsManager

open Handler

/-- From every pool that a run reaches, a request answers with the truth exactly when it
is none of the misleading ones. -/
theorem truthful_iff (sessionExpirationTime maxSessionsPerUser : Nat) (run : List PoolOp) (server : Server)
    (request : ClientRequest) :
    let m := poolAfter sessionExpirationTime maxSessionsPerUser run
    Truthful server request m (procHTTPClientContent server request m).2 ↔ ¬Misleads server request m :=
  truthful_request_iff (wellNamed_poolAfter sessionExpirationTime maxSessionsPerUser run) server request

/-- A login with a stale cookie creates a session and tells the browser to forget it. -/
theorem truthful_fails :
    ¬∀ sessionExpirationTime maxSessionsPerUser run server request,
      let m := poolAfter sessionExpirationTime maxSessionsPerUser run
      Truthful server request m (procHTTPClientContent server request m).2 := by
  intro all
  have truthful := all 900 100 [] { sampleServer with usingCSRFToken := false }
    { loginRequest with sessionIdCookie := "stale" }
  have answer := truthful.created rfl "a:b" ⟨rfl, Option.ne_none_iff_isSome.mpr (by decide)⟩
  revert answer
  decide

end SessionsManager

end Mantids.RPC
