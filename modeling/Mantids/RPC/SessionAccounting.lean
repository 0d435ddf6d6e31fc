import Mantids.Library.Runs
import Mantids.RPC.SessionsManager

/-! The per-user counters of the session pool against the sessions that are in it. -/

set_option autoImplicit false

namespace Mantids.RPC.SessionsManager

open Auth Threads

/-- The calls that change the set of sessions. -/
inductive Op where
  | createWebSession (session : Session) (randoms : Randoms)
  | destroySession (sessionID : String)
  | gc (now : Time)

def step (m : SessionsManager) : Op → SessionsManager
  | .createWebSession session randoms => (m.createWebSession session randoms).2
  | .destroySession sessionID => (m.destroySession sessionID).2
  | .gc now => m.gc now

def ownedBy (user : String × String) (entry : SMapElement WebSession) : Bool :=
  match entry.rdElement with
  | some session => session.userOf = user
  | none => false

def sessionsOf (m : SessionsManager) (user : String × String) : Nat :=
  Library.tally (ownedBy user) m.sessions

/-- Every counter is exact, absent when zero. -/
def Accounted (m : SessionsManager) : Prop :=
  ∀ user, m.sessionPerUser.get user =
    if sessionsOf m user = 0 then none else some (sessionsOf m user)

def Bounded (m : SessionsManager) : Prop := ∀ user, sessionsOf m user ≤ m.maxSessionsPerUser

/-- Nobody below the limit is refused. -/
def Serves (m : SessionsManager) : Op → Prop
  | .createWebSession session randoms =>
    (m.createWebSession session randoms).1 = "" →
      m.maxSessionsPerUser ≤ sessionsOf m session.getUserDomainPair
  | _ => True

/-- The whole property of one operation. -/
def Fair (m : SessionsManager) (op : Op) : Prop :=
  Accounted (step m op) ∧ Bounded (step m op) ∧ Serves m op

/-- The condition under which an operation is fair: a limit of at least one and an
unused id for a session that is admitted, and nothing for the collector to collect. -/
def Keeps (m : SessionsManager) : Op → Prop
  | .createWebSession session randoms =>
    0 < m.maxSessionsPerUser ∧
      (m.maxSessionsPerUser ≤ sessionsOf m session.getUserDomainPair ∨
        m.sessions.get randoms.sessionId = none)
  | .destroySession _ => True
  | .gc now => ∀ key entry, m.sessions.get key = some entry → ∀ session ∈ entry.rdElement,
      session.authSession.isLastActivityExpired now m.sessionExpirationTime = false

/-! ## The map between operations -/

theorem idle_lookup {sessions : SafeMap String WebSession} (idle : sessions.Idle) {key : String}
    {entry : SMapElement WebSession} (found : sessions.get key = some entry) :
    ∃ session, entry = ⟨some session, 0⟩ := by
  obtain ⟨present, zero⟩ := idle key entry found
  obtain ⟨session, same⟩ := Option.isSome_iff_exists.mp present
  exact ⟨session, by cases entry; simp_all⟩

/-- Opening and releasing puts an idle entry back. -/
theorem open_release {sessions : SafeMap String WebSession} {key : String} {session : WebSession}
    (found : sessions.get key = some ⟨some session, 0⟩) :
    sessions.openElement key = (some session, sessions.insert key ⟨some session, 1⟩) ∧
      SafeMap.releaseElement (sessions.insert key ⟨some session, 1⟩) key =
        (.yes, sessions.insert key ⟨some session, 0⟩) := by
  constructor
  · simp only [SafeMap.openElement, found]
  · simp only [SafeMap.releaseElement, Library.get_insert_self, AList.insert_insert]

theorem destroy_idle (sessions : SafeMap String WebSession) (key : String) (session : WebSession) :
    SafeMap.destroyElement (sessions.insert key ⟨some session, 0⟩) key =
      (.yes, (sessions.insert key ⟨some session, 0⟩).erase key) := by
  simp only [SafeMap.destroyElement, Library.get_insert_self]

/-- The entries that the collector leaves. -/
def live (now : Time) (expSeconds : Nat) (entry : SMapElement WebSession) : Bool :=
  match entry.rdElement with
  | some session => !session.authSession.isLastActivityExpired now expSeconds
  | none => true

theorem gcElement_eq {m : SessionsManager} (idle : m.sessions.Idle) (now : Time) (key : String) :
    ∃ ending sessions, gcElement m now key = (ending, { m with sessions := sessions }) ∧
      ending ≠ .waiting ∧ ending ≠ .throws ∧
      ∀ other, sessions.get other =
        if other = key then (m.sessions.get other).filter (live now m.sessionExpirationTime)
        else m.sessions.get other := by
  cases found : m.sessions.get key with
  | none =>
    refine ⟨.no, m.sessions, ?_, by decide, by decide, fun other => ?_⟩
    · simp only [gcElement, SafeMap.openElement, found]
    · split
      · rename_i same
        rw [same, found]
        rfl
      · rfl
  | some entry =>
    obtain ⟨session, rfl⟩ := idle_lookup idle found
    obtain ⟨opened, released⟩ := open_release found
    unfold gcElement
    rw [opened]
    simp only [released]
    split
    · rename_i expired
      rw [destroy_idle]
      refine ⟨.yes, _, rfl, by decide, by decide, fun other => ?_⟩
      rw [Library.get_erase, Library.get_insert]
      by_cases same : other = key
      · subst same
        simp [found, Option.filter, live, expired]
      · simp [same]
    · rename_i expired
      refine ⟨.yes, _, rfl, by decide, by decide, fun other => ?_⟩
      rw [Library.get_insert]
      by_cases same : other = key
      · subst same
        simp [found, Option.filter, live, expired]
      · simp [same]

theorem gcLoop_eq {m : SessionsManager} (idle : m.sessions.Idle) (now : Time) (keys : List String) :
    ∃ sessions, gcLoop now keys m = { m with sessions := sessions } ∧
      ∀ other, sessions.get other =
        if other ∈ keys then (m.sessions.get other).filter (live now m.sessionExpirationTime)
        else m.sessions.get other := by
  induction keys generalizing m with
  | nil => exact ⟨m.sessions, rfl, fun other => by simp⟩
  | cons key keys ih =>
    obtain ⟨ending, sessions, one, notWaiting, notThrows, looked⟩ := gcElement_eq idle now key
    have rest : gcLoop now (key :: keys) m = gcLoop now keys { m with sessions := sessions } := by
      rw [gcLoop, one]
      cases ending <;> first | rfl | contradiction
    have next : sessions.Idle := by
      intro other entry found
      rw [looked] at found
      split at found
      · exact idle other entry (Option.eq_some_of_filter_eq_some found)
      · exact idle other entry found
    obtain ⟨after, same, lookedAfter⟩ := ih (m := { m with sessions := sessions }) next
    refine ⟨after, rest.trans same, fun other => ?_⟩
    rw [lookedAfter, looked]
    by_cases here : other = key <;> by_cases later : other ∈ keys <;>
      simp [here, later, Option.filter_filter]

/-- The collector keeps exactly the live entries and leaves the counters alone. -/
theorem gc_eq {m : SessionsManager} (idle : m.sessions.Idle) (now : Time) :
    ∃ sessions, m.gc now = { m with sessions := sessions } ∧
      ∀ key, sessions.get key = (m.sessions.get key).filter (live now m.sessionExpirationTime) := by
  obtain ⟨sessions, same, looked⟩ := gcLoop_eq idle now m.sessions.getKeys
  refine ⟨sessions, same, fun key => ?_⟩
  rw [looked]
  split
  · rfl
  · rename_i absent
    rw [Library.get_eq_none_iff.mpr absent]
    rfl

theorem destroySession_idle {m : SessionsManager} (idle : m.sessions.Idle) (sessionID : String) :
    m.sessions.get sessionID = none ∧ (m.destroySession sessionID).2 = m ∨
      ∃ session sessions, m.sessions.get sessionID = some ⟨some session, 0⟩ ∧
        m.destroySession sessionID = forgetSession { m with sessions := sessions } session.userOf ∧
        ∀ key, sessions.get key = if key = sessionID then none else m.sessions.get key := by
  cases found : m.sessions.get sessionID with
  | none => exact .inl ⟨rfl, destroySession_missing (by simp [found])⟩
  | some entry =>
    obtain ⟨session, rfl⟩ := idle_lookup idle found
    refine .inr ⟨session, _, rfl, destroySession_eq found, fun key => ?_⟩
    rw [Library.get_erase, Library.get_insert]
    split <;> rfl

/-! ## Exactness of one operation -/

theorem sessionsOf_congr {m : SessionsManager} {sessions : SafeMap String WebSession}
    (same : ∀ key, sessions.get key = m.sessions.get key) (user : String × String) :
    sessionsOf { m with sessions := sessions } user = sessionsOf m user :=
  Library.tally_congr same

theorem sessionsOf_erase {m : SessionsManager} {sessions : SafeMap String WebSession} {sessionID : String}
    {session : WebSession} (found : m.sessions.get sessionID = some ⟨some session, 0⟩)
    (erased : ∀ key, sessions.get key = if key = sessionID then none else m.sessions.get key)
    (user : String × String) :
    sessionsOf { m with sessions := sessions } user + (if session.userOf = user then 1 else 0) =
      sessionsOf m user := by
  have same : Library.tally (ownedBy user) sessions =
      Library.tally (ownedBy user) (m.sessions.erase sessionID) :=
    Library.tally_congr fun key => (erased key).trans (Library.get_erase m.sessions sessionID key).symm
  have split := Library.tally_erase (p := ownedBy user) found
  simp only [ownedBy, decide_eq_true_eq] at split
  simp only [sessionsOf, same]
  exact split

/-- Destroying brings the counter of the session's user down with the sessions. -/
theorem destroySession_fair {m : SessionsManager} (accounted : Accounted m) (bounded : Bounded m)
    (idle : m.sessions.Idle) (sessionID : String) :
    Accounted (m.destroySession sessionID).2 ∧ Bounded (m.destroySession sessionID).2 ∧
      (m.destroySession sessionID).2.sessions.Idle := by
  rcases destroySession_idle idle sessionID with ⟨-, same⟩ | ⟨session, sessions, found, same, erased⟩
  · rw [same]
    exact ⟨accounted, bounded, idle⟩
  have after := sessionsOf_erase found erased
  have own := after session.userOf
  rw [if_pos rfl] at own
  have count := accounted session.userOf
  rw [if_neg (by omega)] at count
  have left : decrement (sessionsOf m session.userOf) =
      sessionsOf { m with sessions := sessions } session.userOf := by
    unfold decrement
    rw [if_neg (by omega)]
    omega
  have final : (m.destroySession sessionID).2 = { m with
      sessions := sessions
      sessionPerUser :=
        if sessionsOf { m with sessions := sessions } session.userOf = 0 then
          (m.sessionPerUser.insert session.userOf 0).erase session.userOf
        else m.sessionPerUser.insert session.userOf
          (sessionsOf { m with sessions := sessions } session.userOf) } := by
    rw [same]
    simp only [forgetSession, count, left]
    split
    · rename_i zero
      rw [zero]
    · rfl
  rw [final]
  refine ⟨fun user => ?_, fun user => ?_, fun key entry looked => ?_⟩
  · have others := accounted user
    have counts := after user
    change Library.Table.get (if _ then _ else _) user = if sessionsOf { m with sessions := sessions } user = 0
      then none else some (sessionsOf { m with sessions := sessions } user)
    by_cases mine : user = session.userOf
    · subst mine
      split
      · exact Library.get_erase_self _ _
      · exact Library.get_insert_self _ _ _
    · rw [if_neg fun other => mine other.symm, Nat.add_zero] at counts
      rw [counts, ← others]
      split
      · rw [Library.get_erase, if_neg mine, Library.get_insert, if_neg mine]
      · rw [Library.get_insert, if_neg mine]
  · have counts := after user
    have limit := bounded user
    change sessionsOf { m with sessions := sessions } user ≤ m.maxSessionsPerUser
    omega
  · rw [erased] at looked
    split at looked
    · contradiction
    · exact idle key entry looked

/-- A refused user leaves the pool alone; for an admitted one the id decides. -/
theorem createWebSession_cases (m : SessionsManager) (session : Session) (randoms : Randoms) :
    (∃ count, m.sessionPerUser.get session.getUserDomainPair = some count ∧
        m.maxSessionsPerUser ≤ count ∧ m.createWebSession session randoms = ("", m)) ∨
      ∃ sessionPerUser : Library.Table (String × String) Nat,
        (∀ user, sessionPerUser.get user =
          if user = session.getUserDomainPair then
            some ((m.sessionPerUser.get session.getUserDomainPair).getD 0 + 1)
          else m.sessionPerUser.get user) ∧
        (∀ count, m.sessionPerUser.get session.getUserDomainPair = some count →
          count < m.maxSessionsPerUser) ∧
        m.createWebSession session randoms =
          createWebSession.addSession session randoms { m with sessionPerUser := sessionPerUser } := by
  cases found : m.sessionPerUser.get session.getUserDomainPair with
  | none =>
    refine .inr ⟨m.sessionPerUser.insert session.getUserDomainPair 1, fun user => ?_, by simp, ?_⟩
    · exact Library.get_insert _ _ _ _
    · simp only [createWebSession, found]
  | some count =>
    by_cases full : m.maxSessionsPerUser ≤ count
    · refine .inl ⟨count, rfl, full, ?_⟩
      simp only [createWebSession, found, full, if_true]
    · refine .inr ⟨m.sessionPerUser.insert session.getUserDomainPair (count + 1), fun user => ?_, ?_, ?_⟩
      · exact Library.get_insert _ _ _ _
      · intro known same
        cases same
        omega
      · simp only [createWebSession, found, full, if_false]

section
variable {m : SessionsManager} {counters : Library.Table (String × String) Nat} {randoms : Randoms}
  (session : Session)

theorem addSession_fresh (fresh : m.sessions.get randoms.sessionId = none) :
    createWebSession.addSession session randoms { m with sessionPerUser := counters } =
      (randoms.sessionId, { m with
        sessionPerUser := counters
        sessions := m.sessions.insert randoms.sessionId
          ⟨some ⟨{ session with sessionId := randoms.sessionId }, false, randoms.confirmToken,
            randoms.csrfToken⟩, 0⟩ }) := by
  simp only [createWebSession.addSession, SafeMap.addElement, fresh]

theorem addSession_used (used : m.sessions.get randoms.sessionId ≠ none) :
    createWebSession.addSession session randoms { m with sessionPerUser := counters } =
      ("", { m with sessionPerUser := counters }) := by
  obtain ⟨entry, found⟩ := Option.ne_none_iff_exists'.mp used
  simp only [createWebSession.addSession, SafeMap.addElement, found]

end

theorem createWebSession_idle {m : SessionsManager} (idle : m.sessions.Idle) (session : Session)
    (randoms : Randoms) : (m.createWebSession session randoms).2.sessions.Idle := by
  rcases createWebSession_cases m session randoms with ⟨_, _, _, same⟩ | ⟨_, _, _, same⟩
  · rw [same]
    exact idle
  · rw [same]
    by_cases fresh : m.sessions.get randoms.sessionId = none
    · rw [addSession_fresh session fresh]
      intro key entry looked
      rw [Library.get_insert] at looked
      split at looked
      · cases looked
        exact ⟨rfl, rfl⟩
      · exact idle key entry looked
    · rw [addSession_used session fresh]
      exact idle

theorem createWebSession_fair_iff {m : SessionsManager} (accounted : Accounted m) (bounded : Bounded m)
    (session : Session) (randoms : Randoms) :
    Fair m (.createWebSession session randoms) ↔ Keeps m (.createWebSession session randoms) := by
  have own := accounted session.getUserDomainPair
  have limit := bounded session.getUserDomainPair
  simp only [Fair, Serves, Keeps, step]
  rcases createWebSession_cases m session randoms with ⟨count, found, full, same⟩ | ⟨counters, got, room, same⟩
  · -- refused: the user is known, hence has as many sessions as the counter says
    rw [found] at own
    split at own
    · contradiction
    · cases own
      simp only [same]
      exact iff_of_true ⟨accounted, bounded, fun _ => full⟩ ⟨by omega, .inl full⟩
  · have before : (m.sessionPerUser.get session.getUserDomainPair).getD 0 =
        sessionsOf m session.getUserDomainPair := by
      rw [own]
      split
      · rename_i zero
        exact zero.symm
      · rfl
    have below : 0 < m.maxSessionsPerUser → sessionsOf m session.getUserDomainPair < m.maxSessionsPerUser := by
      intro positive
      by_cases zero : sessionsOf m session.getUserDomainPair = 0
      · omega
      · exact room _ (own.trans (if_neg zero))
    by_cases fresh : m.sessions.get randoms.sessionId = none
    · have counts : ∀ user, sessionsOf (m.createWebSession session randoms).2 user =
          sessionsOf m user + if user = session.getUserDomainPair then 1 else 0 := by
        intro user
        rw [same, addSession_fresh session fresh, sessionsOf, sessionsOf, Library.tally_insert_new _ fresh]
        by_cases mine : session.getUserDomainPair = user
        · simp [ownedBy, WebSession.userOf, Session.getUserDomainPair, ← mine]
        · simp only [Session.getUserDomainPair] at mine
          simp [ownedBy, WebSession.userOf, Session.getUserDomainPair, mine, Ne.symm mine]
      have after : Accounted (m.createWebSession session randoms).2 := by
        intro user
        rw [counts user, same, addSession_fresh session fresh]
        simp only [got, before]
        by_cases mine : user = session.getUserDomainPair
        · subst mine
          simp
        · simpa [mine] using accounted user
      have maximum : (m.createWebSession session randoms).2.maxSessionsPerUser = m.maxSessionsPerUser := by
        rw [same, addSession_fresh session fresh]
      constructor
      · rintro ⟨-, inside, -⟩
        have mine := inside session.getUserDomainPair
        rw [counts, if_pos rfl, maximum] at mine
        exact ⟨by omega, .inr fresh⟩
      · rintro ⟨positive, -⟩
        refine ⟨after, fun user => ?_, fun refused => ?_⟩
        · rw [counts, maximum]
          have others := bounded user
          split
          · rename_i mine
            subst mine
            exact below positive
          · exact others
        · rw [same, addSession_fresh session fresh] at refused
          exact absurd refused randoms.sessionId_ne_empty
    · -- the id is taken: the counter goes up and nothing else happens
      refine iff_of_false ?_ ?_
      · rintro ⟨wrong, -, -⟩
        have mine := wrong session.getUserDomainPair
        rw [same, addSession_used session fresh] at mine
        change counters.get _ = if sessionsOf m _ = 0 then none else some (sessionsOf m _) at mine
        rw [got, if_pos rfl, before] at mine
        split at mine
        · contradiction
        · simp at mine
      · rintro ⟨positive, full | unused⟩
        · have := below positive
          omega
        · exact fresh unused

theorem gc_idle {m : SessionsManager} (idle : m.sessions.Idle) (now : Time) : (m.gc now).sessions.Idle := by
  obtain ⟨sessions, same, looked⟩ := gc_eq idle now
  rw [same]
  intro key entry found
  rw [looked] at found
  exact idle key entry (Option.eq_some_of_filter_eq_some found)

theorem gc_fair_iff {m : SessionsManager} (accounted : Accounted m) (bounded : Bounded m)
    (idle : m.sessions.Idle) (now : Time) : Fair m (.gc now) ↔ Keeps m (.gc now) := by
  obtain ⟨sessions, same, looked⟩ := gc_eq idle now
  simp only [Fair, Serves, Keeps, step]
  rw [same]
  constructor
  · -- a collected session leaves its user's counter too high
    rintro ⟨after, -, -⟩ key entry found session mine
    by_contra expired
    rw [Bool.not_eq_false] at expired
    have collected : 0 < Library.tally (fun entry => ownedBy session.userOf entry &&
        !live now m.sessionExpirationTime entry) m.sessions :=
      Library.tally_pos_iff.mpr ⟨key, entry, found, by simp [ownedBy, live, Option.mem_def.mp mine, expired]⟩
    have split := Library.tally_split (ownedBy session.userOf) (live now m.sessionExpirationTime) m.sessions
    have kept := Library.tally_filter (p := ownedBy session.userOf) looked
    have before := accounted session.userOf
    have later := after session.userOf
    have some : sessionsOf m session.userOf ≠ 0 := by
      unfold sessionsOf
      omega
    rw [if_neg some] at before
    change m.sessionPerUser.get session.userOf = _ at later
    rw [before] at later
    split at later
    · contradiction
    · simp only [Option.some.injEq, sessionsOf, kept] at later
      omega
  · intro fresh
    have all : ∀ key, sessions.get key = m.sessions.get key := by
      intro key
      rw [looked]
      cases found : m.sessions.get key with
      | none => rfl
      | some entry =>
        refine Option.filter_some_pos ?_
        cases present : entry.rdElement with
        | none => simp [live, present]
        | some session => simp [live, present, fresh key entry found session present]
    refine ⟨fun user => ?_, fun user => ?_, trivial⟩
    · rw [sessionsOf_congr all]
      exact accounted user
    · rw [sessionsOf_congr all]
      exact bounded user

theorem step_fair_iff {m : SessionsManager} (accounted : Accounted m) (bounded : Bounded m)
    (idle : m.sessions.Idle) (op : Op) : Fair m op ↔ Keeps m op := by
  cases op with
  | createWebSession session randoms => exact createWebSession_fair_iff accounted bounded session randoms
  | destroySession sessionID =>
    obtain ⟨after, inside, -⟩ := destroySession_fair accounted bounded idle sessionID
    exact iff_of_true ⟨after, inside, trivial⟩ trivial
  | gc now => exact gc_fair_iff accounted bounded idle now

theorem step_idle {m : SessionsManager} (accounted : Accounted m) (bounded : Bounded m)
    (idle : m.sessions.Idle) (op : Op) : (step m op).sessions.Idle := by
  cases op with
  | createWebSession session randoms => exact createWebSession_idle idle session randoms
  | destroySession sessionID => exact (destroySession_fair accounted bounded idle sessionID).2.2
  | gc now => exact gc_idle idle now

/-- Along a run from an empty pool every operation is fair exactly when each is taken
where it keeps the counters. -/
theorem fair_run_iff (sessionExpirationTime maxSessionsPerUser : Nat) (run : List Op) :
    Library.Along step Fair ⟨∅, ∅, sessionExpirationTime, maxSessionsPerUser⟩ run ↔
      Library.Along step Keeps ⟨∅, ∅, sessionExpirationTime, maxSessionsPerUser⟩ run := by
  refine Library.along_iff (fun m => Accounted m ∧ Bounded m ∧ m.sessions.Idle) ?_ ?_ _ run ⟨?_, ?_, ?_⟩
  · rintro m op ⟨accounted, bounded, idle⟩
    exact step_fair_iff accounted bounded idle op
  · rintro m op ⟨accounted, bounded, idle⟩ ⟨after, inside, -⟩
    exact ⟨after, inside, step_idle accounted bounded idle op⟩
  · intro user
    rfl
  · intro user
    exact Nat.zero_le _
  · intro key entry found
    cases found

/-- A collected session stays counted: after the collector the pool is empty and the
counter of its user still at one. -/
theorem fair_run_fails :
    ¬∀ sessionExpirationTime maxSessionsPerUser run,
      Library.Along step Fair ⟨∅, ∅, sessionExpirationTime, maxSessionsPerUser⟩ run := by
  intro all
  have fair := all 900 100
    [.createWebSession ((Session.new "" 0 0).registerPersistentAuthentication 0 "bob" "corp" 0 .authenticated)
        ⟨"a", "b", "c", "d"⟩,
      .gc 1000]
  have counter := fair.2.1.1 ("bob", "corp")
  revert counter
  decide

end Mantids.RPC.SessionsManager
