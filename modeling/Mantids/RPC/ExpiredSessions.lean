import Mantids.RPC.PoolRuns

/-! Sessions past their time that the collector has not taken yet: what a request can still do with them. -/

set_option autoImplicit false

namespace Mantids.RPC

open Auth Threads

namespace Handler

section
variable (server : Server) (request : ClientRequest) (m : SessionsManager)

/-! ## What a request must not do -/

/-- A session that has been idle for too long. -/
structure Expired (id : String) (s : WebSession) : Prop where
  live : sessionAt m id = some s
  idle : s.authSession.isLastActivityExpired server.now m.sessionExpirationTime = true

/-- The method is executed in the name of the session's account. -/
structure ExecutesAs (id : String) : Prop where
  uri : requestURI request = "/japi_exec"
  session : (sessionOpen server (new m request.sessionIdCookie)).webSession = some id
  executes : (procHTTPClientContent server request m).1 = some .ok

/-- The `authSession` of the request is another one, or none. -/
structure WithoutAuthority (id : String) (s : WebSession) : Prop where
  unopened : (procHTTPClientContent server request m).2.webSession ≠ some id
  unexecuted : ¬ExecutesAs server request m id
  untouched : ∀ s', sessionAt (procHTTPClientContent server request m).2.sessionsManager id = some s' →
    s'.authSession.lastActivity = s.authSession.lastActivity

def ExpiredUnusable : Prop := ∀ id s, Expired server m id s → WithoutAuthority server request m id s

/-- The session that the request names is past its time and still in the pool, and the credentials beside it can
be read. -/
structure OpensExpired : Prop where
  extra : server.multiAuthsFromString (request.postVars "extraAuth") ≠ none
  auth : server.authenticationFromString (request.postVars "auth") ≠ none
  opens : ∃ id cookies s, Opens server request m id cookies ∧ Expired server m id s

end

section
variable {server : Server} {request : ClientRequest} {m : SessionsManager}

/-! ## The session that is opened -/

theorem Outcome.leaves {credentials : Authentication} {id : String} {s : WebSession} {readers age : Nat}
    {cookies : Cookies} {h : Handler} (named : WellNamed m.sessions)
    (found : m.sessions.get id = some ⟨some s, readers⟩)
    (outcome : Outcome server request credentials m id s readers age cookies h) :
    ∃ entry cookie destroy, Leaves m id entry cookie destroy (sessionDestroy (sessionRelease h)) := by
  cases outcome with
  | kept s' destroy =>
    cases destroy with
    | false => exact ⟨_, _, _, released_leaves m id s' readers age cookies⟩
    | true => exact ⟨_, _, _, destroyed_leaves m id s' readers age cookies⟩
  | refused => exact ⟨_, _, _, refused_leaves m id s readers age cookies named (named _ _ found).1⟩
  | confirmed => exact ⟨_, _, _, released_leaves m id _ readers age _⟩

/-- The first opening takes the session of the cookie, or none. -/
theorem webSession_opened {id : String}
    (opened : (sessionOpen server (new m request.sessionIdCookie)).webSession = some id) :
    id = request.sessionIdCookie ∧ sessionAt m id ≠ none := by
  cases live : sessionAt m request.sessionIdCookie with
  | none =>
    rw [sessionOpen_missing server rfl live] at opened
    cases opened
  | some s =>
    obtain ⟨readers, found⟩ := sessionAt_eq_some_iff.mp live
    rw [sessionOpen_live server rfl rfl found] at opened
    cases opened
    exact ⟨rfl, fun missing => nomatch live.symm.trans missing⟩

theorem not_executesAs {id other : String} {cookies : Cookies} (opens : Opens server request m id cookies)
    (different : other ≠ id) : ¬ExecutesAs server request m other := by
  intro executes
  obtain ⟨rfl, live⟩ := webSession_opened executes.session
  cases opens with
  | cookie => exact different rfl
  | posted unknown => exact live unknown

theorem Opens.unique {id other : String} {cookies jar : Cookies} (opens : Opens server request m id cookies)
    (again : Opens server request m other jar) : other = id := by
  cases opens with
  | cookie live =>
    cases again with
    | cookie => rfl
    | posted unknown => exact absurd unknown live
  | posted unknown =>
    cases again with
    | cookie live => exact absurd unknown live
    | posted => rfl

theorem OpensNone.missing {id : String} {cookies jar : Cookies} (none : OpensNone server request m cookies)
    (opens : Opens server request m id jar) : sessionAt m id = .none := by
  cases none with
  | once unknown once =>
    cases opens with
    | cookie => exact unknown
    | posted _ again => exact absurd again once
  | twice unknown _ unknown' =>
    cases opens with
    | cookie => exact unknown
    | posted => exact unknown'

/-! ## The request -/

/-- A session that the request leaves where it is. -/
theorem withoutAuthority_of_same {id : String} {s : WebSession} (expired : Expired server m id s)
    (unopened : (procHTTPClientContent server request m).2.webSession ≠ some id)
    (unexecuted : ¬ExecutesAs server request m id)
    (same : sessionAt (procHTTPClientContent server request m).2.sessionsManager id = sessionAt m id) :
    WithoutAuthority server request m id s := by
  refine ⟨unopened, unexecuted, ?_⟩
  intro s' live
  rw [same, expired.live] at live
  cases live
  rfl

theorem not_executesAs_none {id : String} {s : WebSession} {cookies : Cookies} (expired : Expired server m id s)
    (none : OpensNone server request m cookies) : ¬ExecutesAs server request m id := by
  intro executes
  obtain ⟨rfl, live⟩ := webSession_opened executes.session
  have unknown := none.missing (.cookie live)
  exact live unknown

theorem unusable_request_iff (named : WellNamed m.sessions) :
    ExpiredUnusable server request m ↔ ¬OpensExpired server request m := by
  have ran := run_request server request named
  generalize result : procHTTPClientContent server request m = after at ran
  cases ran with
  | malformed failed =>
    refine iff_of_true (fun id s expired => ?_) fun opens => failed.elim opens.extra opens.auth
    apply withoutAuthority_of_same expired
    case unopened =>
      rw [result]
      exact fun impossible => by cases impossible
    case unexecuted =>
      intro executes
      cases (congrArg Prod.fst result).symm.trans executes.executes
    case same => rw [result]; rfl
  | @held id s readers age cookies _ _ code h extra auth opens found outcome =>
    have live : sessionAt m id = some s := sessionAt_eq_some_iff.mpr ⟨readers, found⟩
    obtain ⟨entry, cookie, destroy, leaves⟩ := outcome.leaves named found
    by_cases idle : s.authSession.isLastActivityExpired server.now m.sessionExpirationTime = true
    case pos =>
      have opened : (procHTTPClientContent server request m).2.webSession = some id := by
        rw [result]
        exact leaves.webSession
      refine iff_of_false (fun unusable => (unusable id s ⟨live, idle⟩).unopened opened) (not_not.mpr ?_)
      exact ⟨by rw [extra]; exact Option.some_ne_none _, by rw [auth]; exact Option.some_ne_none _,
        id, cookies, s, opens, live, idle⟩
    case neg =>
      have other : ∀ id' s', Expired server m id' s' → id' ≠ id := by
        rintro id' s' expired rfl
        cases live.symm.trans expired.live
        exact idle expired.idle
      refine iff_of_true (fun id' s' expired => ?_) ?_
      · apply withoutAuthority_of_same expired
        case unopened =>
          rw [result, leaves.webSession]
          exact fun same => other id' s' expired (Option.some.inj same).symm
        case unexecuted => exact not_executesAs opens (other id' s' expired)
        case same =>
          rw [result, sessionAt, leaves.sessions, if_neg (other id' s' expired)]
          rfl
      · rintro ⟨-, -, id', cookies', s', opens', expired⟩
        exact other id' s' expired (opens.unique opens')
  | @bare cookies _ credentials _ extra auth none outcome =>
    refine iff_of_true (fun id s expired => ?_) ?_
    · have unexecuted := not_executesAs_none expired none
      apply withoutAuthority_of_same expired
      case unexecuted => exact unexecuted
      case unopened =>
        rw [result]
        cases outcome with
        | idle => exact fun impossible => by cases impossible
        | created => exact fun impossible => by cases impossible
      case same =>
        rw [result]
        cases outcome with
        | idle code m' same =>
          change (m'.sessions.get id).bind _ = _
          rw [same]
          rfl
        | created m' s' age same named creates =>
          have fresh : id ≠ server.randoms.sessionId := by
            rintro rfl
            have missing := creates.admitted.admits.2
            have live := expired.live
            rw [sessionAt, missing] at live
            cases live
          change (m'.sessions.get id).bind _ = _
          rw [same, Library.get_insert, if_neg fresh]
          rfl
    · rintro ⟨-, -, id, cookies', s, opens, expired⟩
      cases (none.missing opens).symm.trans expired.live

end

end Handler

namespace SessionsManager

open Handler

/-- In every pool that a run reaches, a request leaves every session past its time alone just where it opens none. -/
theorem unusable_iff (sessionExpirationTime maxSessionsPerUser : Nat) (run : List PoolOp) (server : Server)
    (request : ClientRequest) :
    let m := poolAfter sessionExpirationTime maxSessionsPerUser run
    ExpiredUnusable server request m ↔ ¬OpensExpired server request m :=
  unusable_request_iff (wellNamed_poolAfter sessionExpirationTime maxSessionsPerUser run)

/-- Half an hour after the last activity, with 15 minutes allowed, a token request makes the session young again. -/
theorem not_unusable :
    let m := poolAfter 900 100 [.request sampleServer loginRequest, .request sampleServer confirmRequest]
    let server := { sampleServer with now := 1800 }
    let request := sessionRequest "CSRFTOKEN" "a:b" "d"
    (sessionAt (procHTTPClientContent server request m).2.sessionsManager "a:b").map
        (·.authSession.lastActivity) = some 1800 ∧
      ¬ExpiredUnusable server request m := by
  intro m server request
  refine ⟨by decide +kernel, fun unusable => ?_⟩
  have idle : ((sessionAt m "a:b").any fun s => s.authSession.isLastActivityExpired server.now m.sessionExpirationTime) =
      true := by decide +kernel
  obtain ⟨s, live, expired⟩ := (Option.any_eq_true _ _).mp idle
  have opened : (procHTTPClientContent server request m).2.webSession = some "a:b" := by decide +kernel
  exact (unusable "a:b" s ⟨live, expired⟩).unopened opened

end SessionsManager

end Mantids.RPC
