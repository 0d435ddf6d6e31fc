import Mantids.Auth.Session
import Mantids.Library.Runs

/-! Who is logged in, by the history of a session: the logins it was asked for,
the outcomes it registered and the policies it was given. -/

set_option autoImplicit false

namespace Mantids.Auth

open Library

inductive SessionOp where
  | registerAuthentication (now : Time) (passIndex : PassIndex) (reason : Reason)
  | registerPersistentAuthentication (now : Time) (sAccountName accountDomain : String) (passIndex : PassIndex)
      (reason : Reason)
  | setRequiredLoginIdx (value : LoginIdxs)
  | setIndexAuthenticationPolicy (passIndex : PassIndex) (authPolicy : AuthenticationPolicy)

def sessionStep (session : Session) : SessionOp → Session
  | .registerAuthentication now passIndex reason => session.registerAuthentication now passIndex reason
  | .registerPersistentAuthentication now sAccountName accountDomain passIndex reason =>
    session.registerPersistentAuthentication now sAccountName accountDomain passIndex reason
  | .setRequiredLoginIdx value => session.setRequiredLoginIdx value
  | .setIndexAuthenticationPolicy passIndex authPolicy => session.setIndexAuthenticationPolicy passIndex authPolicy

/-! ## What a history says -/

namespace SessionOp

/-- The outcome that a call registers for an index, and when. -/
def outcome (passIndex : PassIndex) : SessionOp → Option (Reason × Time)
  | registerAuthentication now index reason => if index = passIndex then some (reason, now) else none
  | registerPersistentAuthentication now _ _ index reason => if index = passIndex then some (reason, now) else none
  | _ => none

def policy (passIndex : PassIndex) : SessionOp → Option AuthenticationPolicy
  | setIndexAuthenticationPolicy index authPolicy => if index = passIndex then some authPolicy else none
  | _ => none

def required : SessionOp → Option LoginIdxs
  | setRequiredLoginIdx value => some value
  | _ => none

end SessionOp

def lastOutcome (history : List SessionOp) (passIndex : PassIndex) : Option (Reason × Time) :=
  latest (SessionOp.outcome passIndex) history

def lastPolicy (history : List SessionOp) (passIndex : PassIndex) : Option AuthenticationPolicy :=
  latest (SessionOp.policy passIndex) history

def lastRequired (history : List SessionOp) : List (PassIndex × String) :=
  ((latest SessionOp.required history).map LoginIdxs.entries).getD []

/-- Registered no longer ago than the positive validity time of the index's policy. -/
def StillValid (history : List SessionOp) (now : Time) (passIndex : PassIndex) (registered : Time) : Prop :=
  ∀ policy ∈ lastPolicy history passIndex, 0 < policy.validTime → now - registered ≤ policy.validTime

/-- The last outcome of the index is one of the accepted and still valid. -/
def Passed (accepted : Reason → Prop) (history : List SessionOp) (now : Time) (passIndex : PassIndex) : Prop :=
  ∃ reason registered, lastOutcome history passIndex = some (reason, registered) ∧ accepted reason ∧
    StillValid history now passIndex registered

/-- The factor is neither authenticated nor authenticated with a password to be changed. -/
def Missing (history : List SessionOp) (now : Time) (passIndex : PassIndex) : Prop :=
  ¬ Passed (fun reason => isPasswordAuthenticated reason = true) history now passIndex

/-- The smallest required index whose factor is missing, with its description. -/
structure FirstMissing (history : List SessionOp) (now : Time) (next : PassIndex × String) : Prop where
  required : next ∈ lastRequired history
  missing : Missing history now next.1
  least : ∀ other ∈ lastRequired history, Missing history now other.1 → next.1 ≤ other.1

/-! ## The session keeps its history -/

structure Keeps (history : List SessionOp) (session : Session) : Prop where
  outcomes : ∀ passIndex, (session.authMatrix.get passIndex).map (fun a => (a.lastAuthStatus, a.authTime)) =
    lastOutcome history passIndex
  policies : ∀ passIndex, session.authPolicies.get passIndex = lastPolicy history passIndex
  required : session.requiredLoginIdxs = lastRequired history

theorem registerAuthentication_get (session : Session) (now : Time) (passIndex : PassIndex) (reason : Reason) :
    (session.registerAuthentication now passIndex reason).authMatrix = session.authMatrix.insert passIndex ⟨reason, now⟩ ∧
    (session.registerAuthentication now passIndex reason).authPolicies = session.authPolicies ∧
    (session.registerAuthentication now passIndex reason).requiredLoginIdxs = session.requiredLoginIdxs := by
  unfold Session.registerAuthentication
  split <;> exact ⟨rfl, rfl, rfl⟩

/-- The overload with an account name registers the same. -/
theorem registerPersistentAuthentication_get (session : Session) (now : Time) (sAccountName accountDomain : String)
    (passIndex : PassIndex) (reason : Reason) :
    (session.registerPersistentAuthentication now sAccountName accountDomain passIndex reason).authMatrix =
      session.authMatrix.insert passIndex ⟨reason, now⟩ ∧
    (session.registerPersistentAuthentication now sAccountName accountDomain passIndex reason).authPolicies =
      session.authPolicies ∧
    (session.registerPersistentAuthentication now sAccountName accountDomain passIndex reason).requiredLoginIdxs =
      session.requiredLoginIdxs := by
  have registered := registerAuthentication_get session now passIndex reason
  unfold Session.registerPersistentAuthentication
  split <;> exact registered

section
variable {history : List SessionOp} {session : Session}

theorem Keeps.registered (kept : Keeps history session) {op : SessionOp} {next : Session} {now : Time}
    {passIndex : PassIndex} {reason : Reason} (silent : op.required = none)
    (said : ∀ index, op.outcome index = if passIndex = index then some (reason, now) else none)
    (unruled : ∀ index, op.policy index = none)
    (written : next.authMatrix = session.authMatrix.insert passIndex ⟨reason, now⟩ ∧
      next.authPolicies = session.authPolicies ∧ next.requiredLoginIdxs = session.requiredLoginIdxs) :
    Keeps (history ++ [op]) next := by
  obtain ⟨matrix, policies, required⟩ := written
  constructor
  case outcomes =>
    intro index
    rw [matrix, get_insert, lastOutcome, latest_append, said index]
    by_cases same : passIndex = index
    · simp [same]
    · simpa [same, Ne.symm same, lastOutcome] using kept.outcomes index
  case policies =>
    intro index
    rw [policies, lastPolicy, latest_append, unruled index]
    exact kept.policies index
  case required =>
    rw [required, lastRequired, latest_append, silent]
    exact kept.required

theorem Keeps.step (kept : Keeps history session) (op : SessionOp) :
    Keeps (history ++ [op]) (sessionStep session op) := by
  cases op with
  | registerAuthentication now passIndex reason =>
    exact kept.registered rfl (fun _ => rfl) (fun _ => rfl) (registerAuthentication_get session now passIndex reason)
  | registerPersistentAuthentication now sAccountName accountDomain passIndex reason =>
    exact kept.registered rfl (fun _ => rfl) (fun _ => rfl)
      (registerPersistentAuthentication_get session now sAccountName accountDomain passIndex reason)
  | setRequiredLoginIdx value =>
    constructor
    case outcomes =>
      intro index
      rw [lastOutcome, latest_append]
      exact kept.outcomes index
    case policies =>
      intro index
      rw [lastPolicy, latest_append]
      exact kept.policies index
    case required =>
      rw [lastRequired, latest_append]
      rfl
  | setIndexAuthenticationPolicy passIndex authPolicy =>
    constructor
    case outcomes =>
      intro index
      rw [lastOutcome, latest_append]
      exact kept.outcomes index
    case policies =>
      intro index
      simp only [sessionStep, Session.setIndexAuthenticationPolicy]
      rw [get_insert, lastPolicy, latest_append, SessionOp.policy]
      by_cases same : passIndex = index
      · simp [same]
      · simpa [same, Ne.symm same, lastPolicy] using kept.policies index
    case required =>
      rw [lastRequired, latest_append]
      exact kept.required

omit history session in
theorem inTime_iff (registered validTime now : Int) :
    (0 < validTime → now - registered ≤ validTime) ↔ ¬ (0 < validTime ∧ registered + validTime < now) := by
  omega

/-- The status of an index is an accepted one when its last outcome is and still stands. -/
theorem Keeps.status_iff (kept : Keeps history session) (accepted : Reason → Prop) (now : Time)
    (passIndex : PassIndex) (authenticated : ∀ reason, accepted reason → isPasswordAuthenticated reason = true) :
    accepted (session.getIdxAuthenticationStatus now passIndex) ↔ Passed accepted history now passIndex := by
  have unauthenticated : ¬ accepted .unauthenticated := fun held => absurd (authenticated _ held) (by decide)
  have expired : ¬ accepted .expired := fun held => absurd (authenticated _ held) (by decide)
  have outcome := kept.outcomes passIndex
  have policy := kept.policies passIndex
  unfold Session.getIdxAuthenticationStatus Session.getCurrentAuthenticationStatus Passed StillValid
  rw [← outcome, ← policy]
  cases session.authMatrix.get passIndex with
  | none => simpa [isPasswordAuthenticated] using unauthenticated
  | some current =>
    obtain ⟨reason, registered⟩ := current
    by_cases held : isPasswordAuthenticated reason = true
    · cases session.authPolicies.get passIndex with
      | none => simp [held]
      | some policy =>
        by_cases beyond : 0 < policy.validTime ∧ registered + policy.validTime < now
        · have late := (inTime_iff registered policy.validTime now).not.mpr (not_not.mpr beyond)
          simp only [Option.getD_some, held, beyond]
          apply iff_of_false expired
          rintro ⟨_, _, same, _, valid⟩
          cases same
          exact late (valid policy rfl)
        · have inTime := (inTime_iff registered policy.validTime now).mpr beyond
          simp only [Option.getD_some, held, beyond]
          constructor
          · intro taken
            exact ⟨reason, registered, rfl, taken, fun _ same => Option.some.inj same ▸ inTime⟩
          · rintro ⟨_, _, same, taken, _⟩
            cases same
            exact taken
    · have refused : ¬ accepted reason := fun taken => held (authenticated reason taken)
      simp [held, refused]

theorem Keeps.missing_iff (kept : Keeps history session) (now : Time) (passIndex : PassIndex) :
    (!isPasswordAuthenticated (session.getIdxAuthenticationStatus now passIndex)) = true ↔
      Missing history now passIndex := by
  have status := kept.status_iff (fun reason => isPasswordAuthenticated reason = true) now passIndex
    (fun _ held => held)
  rw [Missing, ← status]
  simp

theorem lastRequired_sorted (history : List SessionOp) :
    (lastRequired history).Pairwise fun earlier later => earlier.1 < later.1 := by
  unfold lastRequired
  cases latest SessionOp.required history with
  | none => exact List.Pairwise.nil
  | some value => exact value.sorted

omit history session in
theorem find_least {p : PassIndex × String → Bool} {entries : List (PassIndex × String)} {next : PassIndex × String}
    (sorted : entries.Pairwise fun earlier later => earlier.1 < later.1) (found : entries.find? p = some next) :
    ∀ other ∈ entries, p other = true → next.1 ≤ other.1 := by
  obtain ⟨_, before, after, rfl, skipped⟩ := List.find?_eq_some_iff_append.mp found
  intro other member holds
  rcases List.mem_append.mp member with early | late
  · have refused := skipped other early
    simp [holds] at refused
  · rcases List.mem_cons.mp late with rfl | later
    · exact UInt32.le_refl _
    · have ordered := (List.pairwise_cons.mp (List.pairwise_append.mp sorted).2.1).1 other later
      exact UInt32.le_of_lt ordered

/-- With a factor missing, the next login is the first of them; with none, it is the sentinel. -/
theorem Keeps.next (kept : Keeps history session) (now : Time) :
    (∀ required ∈ lastRequired history, ¬ Missing history now required.1) ∧
        session.getNextRequiredLoginIdxs now = (0xFFFFFFFF, "") ∨
      FirstMissing history now (session.getNextRequiredLoginIdxs now) := by
  unfold Session.getNextRequiredLoginIdxs
  rw [kept.required]
  cases found : (lastRequired history).find? fun i =>
    !isPasswordAuthenticated (session.getIdxAuthenticationStatus now i.1) with
  | none =>
    left
    constructor
    · intro required member missing
      exact List.find?_eq_none.mp found required member ((kept.missing_iff now required.1).mpr missing)
    · rfl
  | some next =>
    right
    constructor
    case required => exact List.mem_of_find?_eq_some found
    case missing =>
      have missing := List.find?_some found
      exact (kept.missing_iff now next.1).mp missing
    case least =>
      intro other member missing
      exact find_least (lastRequired_sorted history) found other member ((kept.missing_iff now other.1).mpr missing)

end

/-! ## Every run -/

end Mantids.Auth
