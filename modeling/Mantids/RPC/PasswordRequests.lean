import Mantids.Auth.AuthenticatedChange
import Mantids.RPC.PoolRuns

/-! The requests `CHPASSWD` and `TESTPASSWD` of a session (`webclienthandler.cpp`), down to the stored secrets. -/

set_option autoImplicit false

namespace Mantids.RPC.PasswordRequests

open Auth Library

/-! ## The domains -/

/-- The manager of a domain. The index of a secret has a row of its own, by the foreign key. -/
structure Manager where
  policy : Policy
  db : Database
  referenced : db.Referenced

abbrev Domains := String → Option Manager

/-- What the requests ask of the code around them: the clock, and a salt for a new secret. -/
structure Site where
  crypto : Crypto
  appName : String
  randomSalt : Salt
  now : Time
  server : Server
  authorizer : Manager → Authorizer

namespace Manager

section
variable (site : Site) (manager : Manager)

def authenticate (accountName password : String) (passIndex : PassIndex) : Reason × Manager :=
  let call := Database.plainCall site.appName accountName password passIndex
  ((manager.db.authenticate site.crypto manager.policy site.now call).1,
    { manager with
      db := (manager.db.authenticate site.crypto manager.policy site.now call).2
      referenced := (Database.sameSecrets_authenticate call).referenced manager.referenced })

def accountChangeAuthenticatedSecret (accountName : String) (passIndex : PassIndex) (sCurrentPassword : String)
    (passwordData : Secret) : Bool × Manager :=
  let call := Database.plainCall site.appName accountName sCurrentPassword passIndex
  ((manager.db.accountChangeAuthenticatedSecret site.crypto manager.policy site.now call passwordData).1,
    { manager with
      db := (manager.db.accountChangeAuthenticatedSecret site.crypto manager.policy site.now call passwordData).2
      referenced := manager.referenced.accountChangeAuthenticatedSecret call passwordData })

/-- The password authenticates for the index. -/
def Authenticates (accountName password : String) (passIndex : PassIndex) : Prop :=
  manager.db.Admits manager.policy site.now site.appName accountName ∧
    manager.db.Accepts site.crypto site.now accountName password passIndex

end

end Manager

/-! ## The requests -/

/-- The response code, the member `ok` of the answer, whether the session is to go, and the domains afterwards. -/
structure Outcome where
  code : RetCode
  ok : Option Bool
  bDestroySession : Bool
  authDomains : Domains

section
variable (site : Site) (authDomains : Domains) (authSession : Session)

def procJAPISessionCHPASSWD (request : ClientRequest) (oldAuth : Authentication) : Outcome :=
  match site.server.authenticationFromString (request.postVars "newAuth") with
  | none => ⟨.badRequest, none, false, authDomains⟩
  | some newAuth =>
    if oldAuth.iPassIDX ≠ newAuth.iPassIDX then ⟨.badRequest, none, false, authDomains⟩
    else
      let credIdx := newAuth.iPassIDX
      match authDomains authSession.authDomain with
      | none => ⟨.unauthorized, none, false, authDomains⟩
      | some domainAuthenticator =>
        let (authReason, domainAuthenticator) :=
          domainAuthenticator.authenticate site authSession.authUser oldAuth.sPassword credIdx
        if isPasswordAuthenticated authReason then
          let newSecretData := createNewSecret site.crypto site.randomSalt newAuth.sPassword .ssha256 false 0 0
          let (changed, domainAuthenticator) := domainAuthenticator.accountChangeAuthenticatedSecret site
            authSession.authUser credIdx oldAuth.sPassword newSecretData
          ⟨.ok, some changed, false, Function.update authDomains authSession.authDomain (some domainAuthenticator)⟩
        else
          ⟨.unauthorized, none, true, Function.update authDomains authSession.authDomain (some domainAuthenticator)⟩

/-- The answer says `ok` also where the code does not. -/
def procJAPISessionTESTPASSWD (auth : Authentication) : Outcome :=
  match authDomains authSession.authDomain with
  | none => ⟨.unauthorized, none, false, authDomains⟩
  | some domainAuthenticator =>
    let (authReason, domainAuthenticator) :=
      domainAuthenticator.authenticate site authSession.authUser auth.sPassword 0
    let authDomains := Function.update authDomains authSession.authDomain (some domainAuthenticator)
    if isPasswordAuthenticated authReason then ⟨.ok, some true, false, authDomains⟩
    else ⟨.unauthorized, some true, true, authDomains⟩

/-! ## What is asked of them -/

/-- The password authenticates for the index, in the domain of the session. -/
def Authenticates (password : String) (passIndex : PassIndex) : Prop :=
  ∃ manager ∈ authDomains authSession.authDomain, manager.Authenticates site authSession.authUser password passIndex

/-- The account has no secret for the index, and the password authenticates for the master one. -/
def NewIndex (password : String) (passIndex : PassIndex) : Prop :=
  ∃ manager ∈ authDomains authSession.authDomain, manager.db.secrets.get (authSession.authUser, passIndex) = none ∧
    manager.Authenticates site authSession.authUser password 0

/-- A secret as it is stored, its attempts apart. -/
def stored (authDomains : Domains) (domain : String) (key : String × PassIndex) : Option Secret :=
  (authDomains domain).bind fun manager => (manager.db.secrets.get key).map Secret.data

/-- Success is the password of its index, and anything else costs the session. -/
def Tests (auth : Authentication) : Prop :=
  let outcome := procJAPISessionTESTPASSWD site authDomains authSession auth
  (outcome.code = .ok ↔ Authenticates site authDomains authSession auth.sPassword auth.iPassIDX) ∧
    (outcome.code ≠ .ok → outcome.bDestroySession = true)

/-- The new credential, where it is one for the index of the old one. -/
def asked (request : ClientRequest) (oldAuth : Authentication) : Option Authentication :=
  (site.server.authenticationFromString (request.postVars "newAuth")).filter fun newAuth =>
    newAuth.iPassIDX = oldAuth.iPassIDX

/-- The new password is that of its index exactly by the rule of `accountChangeAuthenticatedSecret`, and nothing else is
touched. -/
def Changes (request : ClientRequest) (oldAuth : Authentication) : Prop :=
  let after := (procJAPISessionCHPASSWD site authDomains authSession request oldAuth).authDomains
  let Rule := Authenticates site authDomains authSession oldAuth.sPassword oldAuth.iPassIDX ∨
    NewIndex site authDomains authSession oldAuth.sPassword oldAuth.iPassIDX
  (∀ newAuth ∈ asked site request oldAuth, Rule → ∀ domain key, stored after domain key =
    if domain = authSession.authDomain ∧ key = (authSession.authUser, oldAuth.iPassIDX) then
      some (createNewSecret site.crypto site.randomSalt newAuth.sPassword .ssha256 false 0 0)
    else stored authDomains domain key) ∧
  ((asked site request oldAuth = none ∨ ¬Rule) → ∀ domain key, stored after domain key = stored authDomains domain key)

/-! ## What they do -/

section
variable {site authDomains authSession} {manager : Manager}

theorem authenticates_iff (found : authDomains authSession.authDomain = some manager) (password : String)
    (passIndex : PassIndex) : Authenticates site authDomains authSession password passIndex ↔
      isPasswordAuthenticated (manager.authenticate site authSession.authUser password passIndex).1 = true := by
  unfold Authenticates Manager.authenticate
  dsimp only
  rw [Database.authenticate_fst, Database.judge_authenticates, found]
  simp [Manager.Authenticates]

theorem stored_update (next : Manager) (domain : String) (key : String × PassIndex) :
    stored (Function.update authDomains authSession.authDomain (some next)) domain key =
      if domain = authSession.authDomain then (next.db.secrets.get key).map Secret.data
      else stored authDomains domain key := by
  unfold stored
  by_cases same : domain = authSession.authDomain
  · subst same
    rw [Function.update_self, if_pos rfl, Option.bind_some]
  · rw [Function.update_of_ne same, if_neg same]

/-- A test goes by the master password. -/
theorem tests_iff (auth : Authentication) : Tests site authDomains authSession auth ↔
    (authDomains authSession.authDomain).isSome = true ∧
      (Authenticates site authDomains authSession auth.sPassword auth.iPassIDX ↔
        Authenticates site authDomains authSession auth.sPassword 0) := by
  unfold Tests procJAPISessionTESTPASSWD
  cases found : authDomains authSession.authDomain with
  | none => simp
  | some manager =>
    have master := @authenticates_iff site authDomains authSession manager found auth.sPassword 0
    dsimp only
    rw [master]
    by_cases accepted :
        isPasswordAuthenticated (manager.authenticate site authSession.authUser auth.sPassword 0).1 = true
    · simp [accepted]
    · simp [accepted]

theorem stored_same (found : authDomains authSession.authDomain = some manager) {next : Manager}
    (same : manager.db.SameSecrets next.db) (domain : String) (key : String × PassIndex) :
    stored (Function.update authDomains authSession.authDomain (some next)) domain key = stored authDomains domain key := by
  rw [stored_update]
  split
  case isTrue own => rw [own, stored, found, Option.bind_some, same.data]
  case isFalse => rfl

theorem stored_replaces (found : authDomains authSession.authDomain = some manager) {next : Manager}
    {accountName : String} {passIndex : PassIndex} {passwordData : Secret}
    (replaces : manager.db.Replaces next.db accountName passIndex passwordData) (domain : String)
    (key : String × PassIndex) :
    stored (Function.update authDomains authSession.authDomain (some next)) domain key =
      if domain = authSession.authDomain ∧ key = (accountName, passIndex) then some passwordData.data
      else stored authDomains domain key := by
  rw [stored_update]
  by_cases own : domain = authSession.authDomain
  · rw [own, if_pos rfl, replaces.data, stored, found, Option.bind_some]
    simp only [true_and]
  · rw [if_neg own, if_neg fun both => own both.1]

/-- Of the domains that the change leaves. -/
theorem authDomains_changed {request : ClientRequest} {oldAuth newAuth : Authentication}
    (given : newAuth ∈ asked site request oldAuth) (found : authDomains authSession.authDomain = some manager) :
    (Authenticates site authDomains authSession oldAuth.sPassword oldAuth.iPassIDX →
      ∃ next, (procJAPISessionCHPASSWD site authDomains authSession request oldAuth).authDomains =
          Function.update authDomains authSession.authDomain (some next) ∧
        manager.db.Replaces next.db authSession.authUser oldAuth.iPassIDX
          (createNewSecret site.crypto site.randomSalt newAuth.sPassword .ssha256 false 0 0)) ∧
    (¬Authenticates site authDomains authSession oldAuth.sPassword oldAuth.iPassIDX →
      ∃ next, (procJAPISessionCHPASSWD site authDomains authSession request oldAuth).authDomains =
          Function.update authDomains authSession.authDomain (some next) ∧ manager.db.SameSecrets next.db) := by
  obtain ⟨parsed, index⟩ := Option.mem_filter_iff.mp given
  have same : newAuth.iPassIDX = oldAuth.iPassIDX := of_decide_eq_true index
  have first := @authenticates_iff site authDomains authSession manager found oldAuth.sPassword oldAuth.iPassIDX
  have kept := @Database.sameSecrets_authenticate site.crypto manager.policy manager.db site.now
    (Database.plainCall site.appName authSession.authUser oldAuth.sPassword oldAuth.iPassIDX)
  unfold procJAPISessionCHPASSWD
  rw [parsed, found]
  dsimp only
  rw [same, if_neg (not_not.mpr rfl)]
  constructor
  · intro right
    rw [if_pos (first.mp right)]
    obtain ⟨_, member, admits, accepts⟩ := right
    cases Option.some.inj (found.symm.trans member)
    obtain ⟨secret, held, _⟩ := id accepts
    have row := manager.referenced (authSession.authUser, oldAuth.iPassIDX) (Option.isSome_of_mem held)
    -- The change authenticates a second time, after the writes of the first.
    obtain ⟨admits', accepts'⟩ := Database.authenticate_again admits accepts
    rw [← kept.secretsIndexs] at row
    exact ⟨_, rfl, kept.replaces (Database.replaces_of_authenticates _ admits' accepts' row).2⟩
  · intro wrong
    rw [if_neg fun right => wrong (first.mpr right)]
    exact ⟨_, rfl, kept⟩

/-- Without a credential for the index nothing is touched. -/
theorem authDomains_unasked {request : ClientRequest} {oldAuth : Authentication}
    (none : asked site request oldAuth = none) :
    (procJAPISessionCHPASSWD site authDomains authSession request oldAuth).authDomains = authDomains := by
  unfold asked at none
  unfold procJAPISessionCHPASSWD
  cases parsed : site.server.authenticationFromString (request.postVars "newAuth") with
  | none => rfl
  | some newAuth =>
    rw [parsed, Option.filter_eq_none_iff] at none
    have differs := none newAuth rfl
    rw [decide_eq_true_eq] at differs
    dsimp only
    rw [if_pos (Ne.symm differs)]

theorem authDomains_unknown (unknown : authDomains authSession.authDomain = none) (request : ClientRequest)
    (oldAuth : Authentication) :
    (procJAPISessionCHPASSWD site authDomains authSession request oldAuth).authDomains = authDomains := by
  unfold procJAPISessionCHPASSWD
  rw [unknown]
  cases site.server.authenticationFromString (request.postVars "newAuth") with
  | none => rfl
  | some newAuth =>
    dsimp only
    split <;> rfl

/-- A change asks for the password of its own index first. -/
theorem changes_iff (request : ClientRequest) (oldAuth : Authentication) :
    Changes site authDomains authSession request oldAuth ↔
      ¬((asked site request oldAuth).isSome = true ∧
        NewIndex site authDomains authSession oldAuth.sPassword oldAuth.iPassIDX) := by
  unfold Changes
  dsimp only
  cases given : asked site request oldAuth with
  | none => simp [authDomains_unasked given]
  | some newAuth =>
    cases found : authDomains authSession.authDomain with
    | none => simp [authDomains_unknown found, Authenticates, NewIndex, found]
    | some manager =>
      obtain ⟨rightly, wrongly⟩ := authDomains_changed given found
      by_cases right : Authenticates site authDomains authSession oldAuth.sPassword oldAuth.iPassIDX
      · obtain ⟨next, after, replaces⟩ := rightly right
        have held : ¬NewIndex site authDomains authSession oldAuth.sPassword oldAuth.iPassIDX := by
          intro new
          obtain ⟨_, member, absent, _⟩ := new
          obtain ⟨_, member', _, secret, held, _⟩ := right
          cases Option.some.inj (member.symm.trans member')
          rw [absent] at held
          cases held
        rw [after]
        constructor
        · exact fun _ new => held new.2
        · intro _
          constructor
          · intro other member _ domain key
            cases Option.some.inj member
            rw [stored_replaces found replaces]
            rfl
          · intro refused
            rcases refused with none | wrong
            · cases none
            · exact absurd (.inl right) wrong
      · obtain ⟨next, after, same⟩ := wrongly right
        rw [after]
        constructor
        · intro changes new
          -- The rule holds by the master password, and the index is still without a secret.
          have made := changes.1 newAuth rfl (.inr new.2) authSession.authDomain (authSession.authUser, oldAuth.iPassIDX)
          obtain ⟨_, member, absent, _⟩ := new.2
          cases Option.some.inj (found.symm.trans member)
          rw [stored_same found same, if_pos ⟨rfl, rfl⟩, stored, found, Option.bind_some, absent] at made
          cases made
        · intro old
          constructor
          · intro other _ rule
            rcases rule with own | new
            · exact absurd own right
            · exact absurd ⟨rfl, new⟩ old
          · exact fun _ => stored_same found same

end

end

/-! ## The handler -/

section
variable (site : Site) (authDomains : Domains) {authSession : Session} {h : Handler}

/-- A manager, as the handler asks it. -/
def Site.manager (manager : Manager) : DomainManager :=
  { site.authorizer manager with
    authenticate accountName authData :=
      ((manager.authenticate site accountName authData.sPassword authData.iPassIDX).1, []) }

/-- The server in front of the domains. -/
def Site.serving : Server := { site.server with authDomains := fun name => (authDomains name).map site.manager }

/-- The handler after the request. -/
def Outcome.leave (outcome : Outcome) (h : Handler) : Handler :=
  if outcome.bDestroySession then { h with bDestroySession := true } else h

theorem handler_TESTPASSWD (opened : h.authSession = some authSession) (auth : Authentication) :
    Handler.procJAPISessionTESTPASSWD (site.serving authDomains) auth h =
      ((procJAPISessionTESTPASSWD site authDomains authSession auth).code,
        (procJAPISessionTESTPASSWD site authDomains authSession auth).leave h) := by
  unfold Handler.procJAPISessionTESTPASSWD procJAPISessionTESTPASSWD Outcome.leave
  rw [opened]
  cases found : authDomains authSession.authDomain with
  | none => simp [Site.serving, found]
  | some manager =>
    by_cases accepted :
        isPasswordAuthenticated (manager.authenticate site authSession.authUser auth.sPassword 0).1 = true
    · simp [Site.serving, Site.manager, found, accepted]
    · simp [Site.serving, Site.manager, found, accepted]

theorem handler_CHPASSWD (opened : h.authSession = some authSession) (request : ClientRequest) (oldAuth : Authentication) :
    Handler.procJAPISessionCHPASSWD (site.serving authDomains) request oldAuth h =
      ((procJAPISessionCHPASSWD site authDomains authSession request oldAuth).code,
        (procJAPISessionCHPASSWD site authDomains authSession request oldAuth).leave h) := by
  have same : (site.serving authDomains).authenticationFromString (request.postVars "newAuth") =
      site.server.authenticationFromString (request.postVars "newAuth") := rfl
  unfold Handler.procJAPISessionCHPASSWD procJAPISessionCHPASSWD Outcome.leave
  rw [opened, same]
  cases site.server.authenticationFromString (request.postVars "newAuth") with
  | none => simp
  | some newAuth =>
    dsimp only
    split
    · simp
    · cases found : authDomains authSession.authDomain with
      | none => simp [Site.serving, found]
      | some manager =>
        by_cases accepted : isPasswordAuthenticated
            (manager.authenticate site authSession.authUser oldAuth.sPassword newAuth.iPassIDX).1 = true
        · simp [Site.serving, Site.manager, found, accepted]
        · simp [Site.serving, Site.manager, found, accepted]

end

/-! ## Both together -/

/-- A test and a change go by the index of the request unless the master password says otherwise. -/
theorem password_requests_iff (site : Site) (authDomains : Domains) (authSession : Session) (auth oldAuth : Authentication)
    (request : ClientRequest) :
    (Tests site authDomains authSession auth ↔ (authDomains authSession.authDomain).isSome = true ∧
      (Authenticates site authDomains authSession auth.sPassword auth.iPassIDX ↔
        Authenticates site authDomains authSession auth.sPassword 0)) ∧
    (Changes site authDomains authSession request oldAuth ↔ ¬((asked site request oldAuth).isSome = true ∧
      NewIndex site authDomains authSession oldAuth.sPassword oldAuth.iPassIDX)) :=
  ⟨tests_iff auth, changes_iff request oldAuth⟩

/-- An account with a master password and a number, and room for a third secret. -/
def factors : Manager where
  policy := ⟨3, 1000⟩
  db :=
    { accounts := AList.singleton "bob" ⟨⟨true, true, false⟩, 0, 0⟩
      secrets := ((∅ : Table _ _).insert ("bob", 0) { Secret.none with hash := "master" }).insert ("bob", 1)
        { Secret.none with hash := "1234" }
      secretsIndexs := ((AList.singleton 0 ⟨"password", true⟩).insert 1 ⟨"number", false⟩).insert 2 ⟨"token", false⟩
      applicationUsers := [("app", "bob")] }
  referenced := by
    intro key held
    dsimp only at held
    rw [get_insert, get_insert] at held
    split_ifs at held with first second
    · rw [first]
      rfl
    · rw [second]
      rfl
    · cases held

/-- Nothing is hashed. -/
def plainly : Crypto := ⟨id, id, fun text _ => text, fun text _ => text⟩

def factorSite : Site where
  crypto := plainly
  appName := "app"
  randomSalt := ⟨[1, 2, 3, 4], rfl⟩
  now := 10
  server := { Handler.sampleServer with authenticationFromJSON := fun _ => some ⟨"5678", 2⟩ }
  authorizer _ := ⟨fun _ => false, fun _ _ => false⟩

def factorSession : Session := { Session.new "a:b" 0 0 with authUser := "bob", authDomain := "corp" }

def factorRequest : ClientRequest :=
  { Handler.sessionRequest "CHPASSWD" "a:b" "" with
    postVars := fun name => if name = "newAuth" then "\x7b\"pass\":\"5678\",\"idx\":2\x7d" else "" }

/-- The master password passes for the number, and cannot make a token. -/
theorem password_requests_lose :
    ¬Tests factorSite (fun _ => some factors) factorSession ⟨"master", 1⟩ ∧
      ¬Changes factorSite (fun _ => some factors) factorSession factorRequest ⟨"master", 2⟩ := by
  have found : (fun _ => some factors : Domains) factorSession.authDomain = some factors := rfl
  have master : Authenticates factorSite (fun _ => some factors) factorSession "master" 0 := by
    rw [authenticates_iff found]
    decide +kernel
  have number : ¬Authenticates factorSite (fun _ => some factors) factorSession "master" 1 := by
    rw [authenticates_iff found]
    decide +kernel
  constructor
  · rw [tests_iff]
    exact fun tests => number (tests.2.mpr master)
  · rw [changes_iff, not_not]
    obtain ⟨_, member, authenticates⟩ := master
    exact ⟨rfl, _, member, by cases member; rfl, authenticates⟩

end Mantids.RPC.PasswordRequests
