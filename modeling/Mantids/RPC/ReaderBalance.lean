import Mantids.RPC.PoolRuns

/-! Every reader that a request takes on a session is given back, and a session that
the request orders destroyed is gone as soon as the other readers have left it. -/

set_option autoImplicit false

namespace Mantids.RPC

open Auth Threads

namespace Handler

def readersOf (m : SessionsManager) (id : String) : Nat :=
  match m.sessions.get id with
  | some entry => entry.readers
  | none => 0

/-- The map after so many readers have released the element. -/
def giveBack (sessions : SafeMap String WebSession) (id : String) : Nat → SafeMap String WebSession
  | 0 => sessions
  | readers + 1 => giveBack (sessions.releaseElement id).2 id readers

/-- What a request on the pool `m` leaves behind it. -/
structure Balanced (m : SessionsManager) (h : Handler) : Prop where
  readers : ∀ id entry, h.sessionsManager.sessions.get id = some entry → entry.readers = readersOf m id
  destroyed : ∀ id, h.webSession = some id → h.bDestroySession = true →
    (giveBack h.sessionsManager.sessions id (readersOf m id)).get id = none

/-- The request is a `POSTLOGIN` that reaches the authenticator and is refused by it. -/
def RefusesLogin (server : Server) (request : ClientRequest) (m : SessionsManager) : Prop :=
  ∃ extraCredentials credentials s,
    server.multiAuthsFromString (request.postVars "extraAuth") = some extraCredentials ∧
    server.authenticationFromString (request.postVars "auth") = some credentials ∧
    sessionAt m request.sessionIdCookie = some s ∧ RefusedLogin server request credentials s

/-! ## The other readers -/

section
variable {sessions : SafeMap String WebSession} {id : String}

theorem giveBack_missing (missing : sessions.get id = none) (readers : Nat) :
    (giveBack sessions id readers).get id = none := by
  induction readers generalizing sessions with
  | zero => exact missing
  | succ readers ih =>
    apply ih
    simp only [SafeMap.releaseElement, missing]

/-- The last of the readers lets the waiting `destroyElement` erase the element. -/
theorem giveBack_closed {readers : Nat} (found : sessions.get id = some ⟨none, readers + 1⟩) :
    (giveBack sessions id (readers + 1)).get id = none := by
  induction readers generalizing sessions with
  | zero => simp only [giveBack, SafeMap.releaseElement, found, Library.get_erase_self]
  | succ readers ih =>
    apply ih
    simp only [SafeMap.releaseElement, found, Library.get_insert_self]

end

section
variable {m : SessionsManager} {id : String} {s : WebSession} {readers : Nat}

theorem readersOf_found (found : m.sessions.get id = some ⟨some s, readers⟩) : readersOf m id = readers := by
  simp only [readersOf, found]

theorem balanced_same {h : Handler} (same : h.sessionsManager.sessions = m.sessions)
    (none : h.webSession = none) : Balanced m h := by
  constructor
  · intro id entry found
    rw [same] at found
    simp only [readersOf, found]
  · intro id opened
    rw [none] at opened
    contradiction

section
variable (found : m.sessions.get id = some ⟨some s, readers⟩)
include found

theorem Leaves.readers_same {entry : Option (SMapElement WebSession)} {cookie : Cookie} {destroy : Bool}
    {h : Handler} (leaves : Leaves m id entry cookie destroy h)
    (given : ∀ left ∈ entry, left.readers = readers) (other : String) (left : SMapElement WebSession)
    (after : h.sessionsManager.sessions.get other = some left) : left.readers = readersOf m other := by
  rw [leaves.sessions] at after
  split at after
  · rename_i here
    rw [here, readersOf_found found]
    exact given left after
  · simp only [readersOf, after]

theorem balanced_released {s' : WebSession} {cookie : Cookie} {h : Handler}
    (leaves : Leaves m id (some ⟨some s', readers⟩) cookie false h) : Balanced m h := by
  constructor
  · exact leaves.readers_same found (by simp)
  · intro other _ ordered
    rw [leaves.destroy] at ordered
    contradiction

theorem balanced_destroyed {cookie : Cookie} {h : Handler}
    (leaves : Leaves m id (if readers = 0 then none else some ⟨none, readers⟩) cookie true h) :
    Balanced m h := by
  constructor
  · apply leaves.readers_same found
    intro left member
    split at member
    · contradiction
    · cases member
      rfl
  · intro other opened _
    rw [leaves.webSession] at opened
    cases opened
    rw [readersOf_found found]
    have after := leaves.sessions id
    rw [if_pos rfl] at after
    cases readers with
    | zero => exact giveBack_missing after 0
    | succ others => exact giveBack_closed after

theorem not_balanced_refused {cookie : Cookie} {h : Handler}
    (leaves : Leaves m id (some ⟨some s, readers + 1⟩) cookie true h) : ¬Balanced m h := by
  intro balanced
  have after := leaves.sessions id
  rw [if_pos rfl] at after
  have same := balanced.readers id _ after
  rw [readersOf_found found] at same
  exact absurd same (Nat.succ_ne_self readers)

end

end

/-! ## The request -/

section
variable {server : Server} {request : ClientRequest} {m : SessionsManager}

theorem not_refusesLogin (missing : sessionAt m request.sessionIdCookie = none) :
    ¬RefusesLogin server request m := by
  rintro ⟨_, _, s, _, _, live, _⟩
  rw [missing] at live
  contradiction

theorem refusesLogin_iff {extraCredentials : List Authentication} {credentials : Authentication} {id : String}
    {s : WebSession} {readers : Nat} {cookies : Cookies}
    (extra : server.multiAuthsFromString (request.postVars "extraAuth") = some extraCredentials)
    (auth : server.authenticationFromString (request.postVars "auth") = some credentials)
    (opens : Opens server request m id cookies) (found : m.sessions.get id = some ⟨some s, readers⟩) :
    RefusesLogin server request m ↔ RefusedLogin server request credentials s := by
  cases opens with
  | cookie =>
    have live : sessionAt m request.sessionIdCookie = some s := sessionAt_eq_some_iff.mpr ⟨readers, found⟩
    constructor
    · rintro ⟨_, credentials', s', _, auth', live', refused⟩
      cases auth.symm.trans auth'
      cases live.symm.trans live'
      exact refused
    · intro refused
      exact ⟨extraCredentials, credentials, s, extra, auth, live, refused⟩
  | posted missing again =>
    constructor
    · intro refuses
      exact absurd refuses (not_refusesLogin missing)
    · intro refused
      exact absurd (again.mode.symm.trans refused.mode) (by decide)

theorem balanced_request_iff (named : WellNamed m.sessions) (server : Server) (request : ClientRequest) :
    Balanced m (procHTTPClientContent server request m).2 ↔ ¬RefusesLogin server request m := by
  have ran := run_request server request named
  generalize procHTTPClientContent server request m = result at ran ⊢
  cases ran with
  | malformed failed =>
    refine iff_of_true (balanced_same rfl rfl) ?_
    rintro ⟨_, _, _, extra, auth, _⟩
    simp [extra, auth] at failed
  | held extra auth opens found outcome =>
    rw [refusesLogin_iff extra auth opens found]
    cases outcome with
    | kept s' destroy kept notRefused =>
      refine iff_of_true ?_ notRefused
      cases destroy with
      | false => exact balanced_released found (released_leaves ..)
      | true => exact balanced_destroyed found (destroyed_leaves ..)
    | refused refused =>
      apply iff_of_false (not_balanced_refused found (refused_leaves _ _ _ _ _ _ named (named _ _ found).1))
      exact not_not_intro refused
    | confirmed confirms =>
      apply iff_of_true (balanced_released found (released_leaves ..))
      intro refused
      have confirmed := confirms.unconfirmed.symm.trans refused.confirmed
      contradiction
  | bare extra auth opens outcome =>
    have missing : sessionAt m request.sessionIdCookie = none := by cases opens <;> assumption
    refine iff_of_true ?_ (not_refusesLogin missing)
    cases outcome with
    | idle code m' same => exact balanced_same same rfl
    | created m' s age same own creates =>
      constructor
      · intro id entry after
        simp only [Handler.bare, same] at after
        rw [Library.get_insert] at after
        split at after
        · rename_i here
          cases after
          simp [readersOf, here, creates.admitted.admits.2]
        · simp only [readersOf, after]
      · intro id opened
        contradiction

end

end Handler

namespace SessionsManager

open Handler

/-- From every pool that a run reaches, a request balances its readers exactly when it
is not a refused `POSTLOGIN`. -/
theorem balanced_iff (sessionExpirationTime maxSessionsPerUser : Nat) (run : List PoolOp) (server : Server)
    (request : ClientRequest) :
    let m := poolAfter sessionExpirationTime maxSessionsPerUser run
    Balanced m (procHTTPClientContent server request m).2 ↔ ¬RefusesLogin server request m :=
  balanced_request_iff (wellNamed_poolAfter sessionExpirationTime maxSessionsPerUser run) server request

/-- A refused `POSTLOGIN` leaves its reader on a session that it ordered destroyed. -/
theorem balanced_fails :
    ¬∀ sessionExpirationTime maxSessionsPerUser run server request,
      let m := poolAfter sessionExpirationTime maxSessionsPerUser run
      Balanced m (procHTTPClientContent server request m).2 := by
  intro all
  have balanced := all 900 100 [.request sampleServer loginRequest, .request sampleServer confirmRequest]
    sampleServer (sessionRequest "POSTLOGIN" "a:b" "d")
  have leaked : ((procHTTPClientContent sampleServer (sessionRequest "POSTLOGIN" "a:b" "d") (poolAfter 900 100
      [.request sampleServer loginRequest, .request sampleServer confirmRequest])).2.sessionsManager.sessions.get
        "a:b").map (·.readers) = some 1 := by decide
  obtain ⟨entry, found, one⟩ := Option.map_eq_some_iff.mp leaked
  have same := balanced.readers "a:b" entry found
  rw [one] at same
  revert same
  decide

end SessionsManager

end Mantids.RPC
