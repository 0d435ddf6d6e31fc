import Mantids.RPC.DomainCalls
import Mantids.RPC.PoolRuns

/-! Which requests leave a domain open. -/

set_option autoImplicit false

namespace Mantids.RPC.DomainCalls

open Library Auth Threads

section
variable (server : Server) (web : WebResources) (request : ClientRequest)

/-! ## The requests that do -/

/-- A method that anybody may call is called without a session: the verdict asks the null session for its user. -/
structure AsksNobody (h : Handler) (useExternalPayload : Bool) (sMethodName sPayloadIn : String) : Prop where
  token : useExternalPayload = true ∨ Handler.csrfValidate server request h = true
  payload : request.postVars "payload" = "" ∨ server.isJSON sPayloadIn = true
  session : h.authSession = none
  method : server.methodsManager.methods.get sMethodName ≠ none
  anybody : server.methodsManager.getMethodRequireFullAuth sMethodName = false
  domain : server.authDomains (request.postVars "domain") ≠ none

/-- The list of passwords is given to a session of a domain. -/
structure ListsPasswords (h : Handler) (s : WebSession) : Prop where
  mode : request.getVars "mode" = "PASSWDLIST"
  token : (Handler.checkCSRF server request h).1 = true
  session : h.current = some s
  confirmed : s.bAuthTokenConfirmed = true
  loggedIn : s.authSession.getIsFullyLoggedIn server.now .allowExpiredPasswords = true
  domain : server.authDomains s.authSession.authDomain ≠ none

/-- A file is found for a visitor with a session of a domain. -/
structure FindsFile (h : Handler) : Prop where
  path : web.resourcesLocalPath ≠ ""
  file : web.localFile request = true
  domain : ∃ authSession, h.authSession = some authSession ∧ server.authDomains authSession.authDomain ≠ none

/-- The page of a visitor without a session calls such a method in its place. -/
structure InlinesNobody (h : Handler) : Prop where
  path : web.resourcesLocalPath ≠ ""
  engine : web.useHTMLIEngine = true
  html : web.isHTML request = true
  calls : ∃ functions, web.inlineFunctions request = some functions ∧
    ∃ call ∈ functions, AsksNobody server request h true call.1 call.2

inductive Leaves (h : Handler) : Prop where
  | passwordList (s : WebSession) : Handler.requestURI request = "/japi_session" →
      ListsPasswords server request (Handler.reopen server request h) s → Leaves h
  | exec : Handler.requestURI request = "/japi_exec" →
      AsksNobody server request h false (request.getVars "method") (request.postVars "payload") → Leaves h
  | file : Handler.requestURI request ∉ ["/japi_exec", "/japi_version", "/japi_session"] →
      FindsFile server web request h → Leaves h
  | page : Handler.requestURI request ∉ ["/japi_exec", "/japi_version", "/japi_session"] →
      InlinesNobody server web request h → Leaves h

/-- The credentials can be read, and the request leaves a domain open. -/
def LeavesOpen (m : SessionsManager) : Prop :=
  server.multiAuthsFromString (request.postVars "extraAuth") ≠ none ∧
    server.authenticationFromString (request.postVars "auth") ≠ none ∧
    Leaves server web request (Handler.sessionOpen server (Handler.new m request.sessionIdCookie))

end

/-! ## One call -/

section
variable {server : Server} {web : WebResources} {request : ClientRequest} {h : Handler}

theorem paired_openAndRelease (domainName : String) : Paired (openAndRelease server domainName) := by
  unfold openAndRelease
  split
  · exact .nil
  · exact paired_single domainName

theorem paired_persistentAuthentication (domainName : String) (authData : Authentication)
    (lAuthSession : Option Session) : Paired (persistentAuthentication server domainName authData lAuthSession) := by
  unfold persistentAuthentication
  split
  · exact .nil
  · exact paired_openAndRelease domainName

theorem paired_runRPCMethod (domainName methodName : String) : Paired (runRPCMethod server domainName methodName) := by
  unfold runRPCMethod
  split
  · exact .nil
  · exact paired_openAndRelease domainName

theorem openDomain_found {domainName : String} (found : server.authDomains domainName ≠ none) :
    openDomain server domainName = [.opens domainName] := by
  unfold openDomain
  split
  · contradiction
  · rfl

theorem openDomain_missing {domainName : String} (missing : ¬server.authDomains domainName ≠ none) :
    openDomain server domainName = [] := by
  unfold openDomain
  rw [not_not.mp missing]

/-- A call pairs its uses up, or it ends at the null session with a domain open. -/
def Ends (calls : Calls) (faults : Prop) : Prop :=
  (¬faults ∧ calls.faulted = false ∧ Paired calls.uses) ∨
    (faults ∧ calls.faulted = true ∧ ∃ before domainName, calls.uses = before ++ [.opens domainName] ∧ Paired before)

theorem Ends.paired_iff {calls : Calls} {faults : Prop} (ends : Ends calls faults) : Paired calls.uses ↔ ¬faults := by
  rcases ends with ⟨returns, -, paired⟩ | ⟨faults, -, before, domainName, uses, first⟩
  · exact iff_of_true paired returns
  · refine iff_of_false ?_ (not_not.mpr faults)
    rw [uses]
    exact not_paired_of_left first .nil domainName

theorem ends_done {uses : List (Use String)} {faults : Prop} (returns : ¬faults) (paired : Paired uses) :
    Ends (.done uses) faults :=
  .inl ⟨returns, rfl, paired⟩

/-- Without a session, only a method that asks for a full login or that does not exist gets a verdict. -/
theorem validateRPCMethodPerms_nobody {RPCMethod : Type} (manager : MethodsManager RPCMethod) (auth : Authorizer)
    (now : Time) (methodName : String) (extraTmpIndexes : List PassIndex)
    (anybody : manager.getMethodRequireFullAuth methodName = false) :
    manager.validateRPCMethodPerms auth none now methodName extraTmpIndexes = none ↔
      manager.methods.get methodName ≠ none := by
  unfold MethodsManager.validateRPCMethodPerms
  cases manager.methods.get methodName with
  | none => simp
  | some method => simp [anybody, MethodsAttributesMap.validateMethod]

theorem paired_verdict (extraAuths : List Authentication) (domainName methodName : String) :
    Paired (extraAuths.flatMap (temporaryAuthentication server domainName) ++ openAndRelease server domainName ++
      runRPCMethod server domainName methodName) :=
  ((paired_flatMap _ _ fun _ => paired_openAndRelease domainName).append (paired_openAndRelease domainName)).append
    (paired_runRPCMethod domainName methodName)

theorem procJAPIExec_ends (extraAuths : List Authentication) (useExternalPayload : Bool)
    (sMethodName sPayloadIn : String) :
    Ends (procJAPIExec server request extraAuths h useExternalPayload sMethodName sPayloadIn)
      (AsksNobody server request h useExternalPayload sMethodName sPayloadIn) := by
  unfold procJAPIExec
  split
  · rename_i refused
    refine ends_done ?_ .nil
    intro asks
    rcases asks.token with external | passed
    · simp [external] at refused
    · simp [passed] at refused
  split
  · rename_i unread
    refine ends_done ?_ .nil
    intro asks
    rcases asks.payload with empty | read
    · exact unread.1 empty
    · simp [read] at unread
  split
  · rename_i full
    refine ends_done ?_ .nil
    intro asks
    rw [asks.anybody] at full
    exact absurd full.1 (by decide)
  rename_i token payload full
  dsimp only
  -- The domain is that of the session, or else the one that the visitor names.
  generalize named : (h.authSession.map (·.authDomain)).getD (request.postVars "domain") = domainName
  have temporary := paired_flatMap (temporaryAuthentication server domainName) extraAuths
    fun _ => paired_openAndRelease domainName
  split
  · rename_i missing
    refine ends_done ?_ temporary
    intro asks
    rw [asks.session] at named
    exact asks.domain ((congrArg server.authDomains named).trans missing)
  · rename_i authorizer found
    split
    · rename_i fault
      refine .inr ⟨?_, rfl, _, _, rfl, temporary⟩
      have session : h.authSession = none := by
        cases account : h.authSession with
        | none => rfl
        | some account' =>
          rw [account] at fault
          obtain ⟨verdict, returned, -⟩ := exactVerdict_of_session server.methodsManager _ server.now sMethodName _ account'
          rw [returned] at fault
          cases fault
      have anybody : server.methodsManager.getMethodRequireFullAuth sMethodName = false := by
        simpa [session] using full
      rw [session] at fault named
      refine ⟨?_, ?_, session, (validateRPCMethodPerms_nobody _ _ _ _ _ anybody).mp fault, anybody, ?_⟩
      · cases external : useExternalPayload with
        | true => exact .inl rfl
        | false => exact .inr (by simpa [external] using token)
      · by_cases empty : request.postVars "payload" = ""
        · exact .inl empty
        · exact .inr (by simpa [empty] using payload)
      · rw [show request.postVars "domain" = domainName from named, found]
        nofun
    · rename_i passed
      refine ends_done ?_ (paired_verdict extraAuths domainName sMethodName)
      intro asks
      rw [asks.session, (validateRPCMethodPerms_nobody _ _ _ _ _ asks.anybody).mpr asks.method] at passed
      cases passed
    · rename_i other verdict refused
      refine ends_done ?_ (temporary.append (paired_openAndRelease domainName))
      intro asks
      rw [asks.session, (validateRPCMethodPerms_nobody _ _ _ _ _ asks.anybody).mpr asks.method] at refused
      cases refused

/-! ## The page and its functions -/

theorem Ends.after {uses : List (Use String)} {calls : Calls} {faults : Prop} (first : Paired uses)
    (ends : Ends calls faults) : Ends ⟨uses ++ calls.uses, calls.faulted⟩ faults := by
  rcases ends with ⟨returns, ended, paired⟩ | ⟨faults, ended, before, domainName, opened, earlier⟩
  · exact .inl ⟨returns, ended, first.append paired⟩
  · refine .inr ⟨faults, ended, uses ++ before, domainName, ?_, first.append earlier⟩
    rw [opened, List.append_assoc]

theorem Ends.congr {calls : Calls} {faults other : Prop} (ends : Ends calls faults) (same : faults ↔ other) :
    Ends calls other := by
  rwa [← propext same]

theorem procResourceJProcessor_ends (extraAuths : List Authentication) (functions : List (String × String)) :
    Ends (procResourceJProcessor server request extraAuths h functions)
      (∃ call ∈ functions, AsksNobody server request h true call.1 call.2) := by
  induction functions with
  | nil => exact ends_done (by simp) .nil
  | cons call rest ih =>
    obtain ⟨functionName, functionInput⟩ := call
    unfold procResourceJProcessor
    dsimp only
    rcases @procJAPIExec_ends server request h extraAuths true functionName functionInput
      with ⟨returns, ended, paired⟩ | ⟨faults, ended, opened⟩
    · rw [if_neg (by rw [ended]; decide)]
      refine (ih.after paired).congr ?_
      simp [returns]
    · rw [if_pos ended]
      exact .inr ⟨⟨_, List.mem_cons_self, faults⟩, ended, opened⟩

theorem procResourceHTMLIEngine_ends (extraAuths : List Authentication) :
    Ends (procResourceHTMLIEngine server web request extraAuths h)
      (∃ functions, web.inlineFunctions request = some functions ∧
        ∃ call ∈ functions, AsksNobody server request h true call.1 call.2) := by
  unfold procResourceHTMLIEngine
  cases web.inlineFunctions request with
  | none => exact ends_done (by simp) .nil
  | some functions =>
    refine (procResourceJProcessor_ends extraAuths functions).congr ?_
    simp

theorem procResourceFile_paired_iff (extraAuths : List Authentication) :
    Paired (procResourceFile server web request extraAuths h).uses ↔
      ¬FindsFile server web request h ∧ ¬InlinesNobody server web request h := by
  unfold procResourceFile
  by_cases path : web.resourcesLocalPath = ""
  · rw [if_pos path]
    exact iff_of_true .nil ⟨fun finds => finds.path path, fun inlines => inlines.path path⟩
  rw [if_neg path]
  have page : Ends (if web.useHTMLIEngine && web.isHTML request then
      procResourceHTMLIEngine server web request extraAuths h else .done []) (InlinesNobody server web request h) := by
    split
    · rename_i engine
      rw [Bool.and_eq_true] at engine
      refine (procResourceHTMLIEngine_ends extraAuths).congr ⟨fun calls => ?_, fun inlines => inlines.calls⟩
      exact ⟨path, engine.1, engine.2, calls⟩
    · rename_i plain
      refine ends_done (fun inlines => plain ?_) .nil
      rw [inlines.engine, inlines.html]
      rfl
  -- Only a visitor with a session has the domain opened for the file, and only one without can fault on the page.
  cases session : h.authSession with
  | none =>
    have unopened : ¬FindsFile server web request h := by
      intro finds
      obtain ⟨authSession, found, -⟩ := finds.domain
      rw [session] at found
      cases found
    simp only [ite_self, List.nil_append]
    rw [page.paired_iff]
    exact ⟨fun returns => ⟨unopened, returns⟩, fun both => both.2⟩
  | some authSession =>
    have returns : ¬InlinesNobody server web request h := by
      intro inlines
      obtain ⟨functions, -, call, -, asks⟩ := inlines.calls
      rw [asks.session] at session
      cases session
    have behind := page.paired_iff.mpr returns
    simp only
    by_cases finds : FindsFile server web request h
    · obtain ⟨other, found, domain⟩ := finds.domain
      cases session.symm.trans found
      rw [if_pos finds.file, openDomain_found domain]
      exact iff_of_false (not_paired_of_left .nil behind _) fun both => both.1 finds
    · have unopened : (if web.localFile request then openDomain server authSession.authDomain else []) = [] := by
        split
        · rename_i file
          exact openDomain_missing fun domain => finds ⟨path, file, authSession, session, domain⟩
        · rfl
      rw [unopened]
      exact iff_of_true behind ⟨finds, returns⟩

/-! ## The session requests -/

theorem paired_procJAPISessionCHPASSWD (oldAuth : Authentication) (authSession : Session) :
    Paired (procJAPISessionCHPASSWD server request oldAuth authSession) := by
  unfold procJAPISessionCHPASSWD
  split
  · exact .nil
  · split
    · exact .nil
    · exact paired_openAndRelease authSession.authDomain

theorem procMode_paired_iff (credentials : Authentication) :
    Paired (procMode server request credentials h) ↔
      ¬∃ s, h.current = some s ∧ request.getVars "mode" = "PASSWDLIST" ∧ s.bAuthTokenConfirmed = true ∧
        s.authSession.getIsFullyLoggedIn server.now .allowExpiredPasswords = true ∧
        server.authDomains s.authSession.authDomain ≠ none := by
  unfold procMode
  cases h.current with
  | none =>
    refine iff_of_true ?_ (by simp)
    dsimp only
    split
    · exact paired_persistentAuthentication _ _ _
    · exact .nil
  | some s =>
    dsimp only
    split
    · rename_i login
      refine iff_of_true (paired_persistentAuthentication _ _ _) ?_
      rintro ⟨_, _, list, -⟩
      simp [list] at login
    split
    · rename_i change
      refine iff_of_true (paired_procJAPISessionCHPASSWD _ _) ?_
      rintro ⟨_, _, list, -⟩
      simp [list] at change
    split
    · rename_i test
      refine iff_of_true (paired_openAndRelease _) ?_
      rintro ⟨_, _, list, -⟩
      simp [list] at test
    split
    · rename_i list
      obtain ⟨confirmed, loggedIn, mode⟩ := list
      unfold procJAPISessionPASSWDLIST
      by_cases domain : server.authDomains s.authSession.authDomain ≠ none
      · rw [openDomain_found domain]
        exact iff_of_false (not_paired_of_left .nil .nil _) fun paired => paired ⟨s, rfl, mode, confirmed, loggedIn, domain⟩
      · rw [openDomain_missing domain]
        refine iff_of_true .nil ?_
        rintro ⟨_, same, -, -, -, found⟩
        cases same
        exact domain found
    · rename_i unlisted
      refine iff_of_true .nil ?_
      rintro ⟨_, same, mode, confirmed, loggedIn, -⟩
      cases same
      exact unlisted ⟨confirmed, loggedIn, mode⟩

theorem checkCSRF_passed (passed : (Handler.checkCSRF server request h).1 = true) :
    (Handler.checkCSRF server request h).2.2 = h := by
  revert passed
  unfold Handler.checkCSRF
  repeat' split
  all_goals intro passed
  all_goals first | rfl | cases passed

theorem procJAPISession_paired_iff (credentials : Authentication) :
    Paired (procJAPISession server request credentials h) ↔
      ¬∃ s, ListsPasswords server request (Handler.reopen server request h) s := by
  unfold procJAPISession
  generalize opened : Handler.reopen server request h = reopened
  rcases check : Handler.checkCSRF server request reopened with ⟨go, code, checked⟩
  cases go with
  | false =>
    refine iff_of_true .nil ?_
    rintro ⟨s, lists⟩
    have passed := lists.token
    rw [check] at passed
    cases passed
  | true =>
    have same := @checkCSRF_passed server request reopened (by rw [check])
    rw [check] at same
    dsimp only at same
    subst same
    refine (procMode_paired_iff credentials).trans (not_congr ⟨?_, ?_⟩)
    · rintro ⟨s, session, mode, confirmed, loggedIn, domain⟩
      exact ⟨s, mode, by rw [check], session, confirmed, loggedIn, domain⟩
    · rintro ⟨s, lists⟩
      exact ⟨s, lists.session, lists.mode, lists.confirmed, lists.loggedIn, lists.domain⟩

/-! ## The request -/

theorem dispatch_paired_iff (extraCredentials : List Authentication) (credentials : Authentication) :
    Paired (dispatch server web request extraCredentials credentials h).uses ↔ ¬Leaves server web request h := by
  unfold dispatch
  split
  · rename_i exec
    refine (procJAPIExec_ends _ _ _ _).paired_iff.trans (not_congr ⟨.exec exec, ?_⟩)
    intro leaves
    cases leaves with
    | exec _ asks => exact asks
    | passwordList _ uri => rw [exec] at uri; exact absurd uri (by decide)
    | file uri => simp [exec] at uri
    | page uri => simp [exec] at uri
  split
  · rename_i noExec version
    refine iff_of_true .nil ?_
    intro leaves
    cases leaves with
    | exec uri => exact noExec uri
    | passwordList _ uri => rw [version] at uri; exact absurd uri (by decide)
    | file uri => simp [version] at uri
    | page uri => simp [version] at uri
  split
  · rename_i noExec _ session
    refine (procJAPISession_paired_iff credentials).trans (not_congr ⟨?_, ?_⟩)
    · rintro ⟨s, lists⟩
      exact .passwordList s session lists
    · intro leaves
      cases leaves with
      | passwordList s _ lists => exact ⟨s, lists⟩
      | exec uri => exact absurd uri noExec
      | file uri => simp [session] at uri
      | page uri => simp [session] at uri
  · rename_i noExec noVersion noSession
    have uri : Handler.requestURI request ∉ ["/japi_exec", "/japi_version", "/japi_session"] := by
      simp [noExec, noVersion, noSession]
    rw [procResourceFile_paired_iff, ← not_or]
    refine not_congr ⟨?_, ?_⟩
    · rintro (finds | inlines)
      · exact .file uri finds
      · exact .page uri inlines
    · intro leaves
      cases leaves with
      | file _ finds => exact .inl finds
      | page _ inlines => exact .inr inlines
      | exec exec => exact absurd exec noExec
      | passwordList _ session => exact absurd session noSession

theorem procHTTPClientContent_paired_iff (m : SessionsManager) :
    Paired (procHTTPClientContent server web request m).uses ↔ ¬LeavesOpen server web request m := by
  unfold procHTTPClientContent LeavesOpen
  cases server.multiAuthsFromString (request.postVars "extraAuth") with
  | none => exact iff_of_true .nil fun leaves => leaves.1 rfl
  | some extraCredentials =>
    cases server.authenticationFromString (request.postVars "auth") with
    | none => exact iff_of_true .nil fun leaves => leaves.2.1 rfl
    | some credentials =>
      refine (dispatch_paired_iff extraCredentials credentials).trans (not_congr ?_)
      simp

end

/-! ## The domains afterwards -/

section
variable {α : Type}

def useDomain (domainMap : SafeMap String α) : Use String → SafeMap String α
  | .opens domainName => (SafeMap.openElement domainMap domainName).2
  | .releases domainName => (SafeMap.releaseElement domainMap domainName).2

/-- None of the domains waits for its removal. -/
def Present (domainMap : SafeMap String α) : Prop :=
  ∀ domainName entry, domainMap.get domainName = some entry → entry.rdElement.isSome

theorem present_opens (domainMap : SafeMap String α) (domainName : String) (present : Present domainMap) :
    Present (useDomain domainMap (.opens domainName)) := by
  intro other entry found
  simp only [useDomain, SafeMap.openElement] at found
  split at found
  · rw [get_insert] at found
    split at found
    · cases found
      rfl
    · exact present other entry found
  · exact present other entry found

theorem releaseElement_found {domainMap : SafeMap String α} {domainName : String} {element : α} {readers : Nat}
    (found : domainMap.get domainName = some ⟨some element, readers + 1⟩) :
    SafeMap.releaseElement domainMap domainName = (.yes, domainMap.insert domainName ⟨some element, readers⟩) := by
  unfold SafeMap.releaseElement
  rw [found]
  cases readers with
  | zero => rfl
  | succ readers => rfl

/-- A release undoes an opening, whatever has kept the readers in between. -/
theorem get_releases_opens (domainMap inside : SafeMap String α) (domainName : String) (present : Present domainMap)
    (kept : ∀ other, inside.get other = (useDomain domainMap (.opens domainName)).get other) (other : String) :
    (useDomain inside (.releases domainName)).get other = domainMap.get other := by
  have within := kept domainName
  simp only [useDomain, SafeMap.openElement] at *
  cases found : domainMap.get domainName with
  | none =>
    -- The opening found nothing, and so does the release.
    simp only [found] at within kept
    unfold SafeMap.releaseElement
    rw [within]
    exact kept other
  | some entry =>
    obtain ⟨element, readers⟩ := entry
    cases element with
    | none => exact absurd (present domainName _ found) (by simp)
    | some element =>
      simp only [found, get_insert, if_true] at within kept
      rw [releaseElement_found within, get_insert, kept other]
      split
      · rename_i same
        rw [same, found]
      · rfl

/-- Uses that pair up leave every domain with the readers it had. -/
theorem get_after_paired {uses : List (Use String)} (paired : Paired uses) (domainMap : SafeMap String α)
    (present : Present domainMap) (domainName : String) :
    (uses.foldl useDomain domainMap).get domainName = domainMap.get domainName := by
  induction paired generalizing domainMap domainName with
  | nil => rfl
  | @around opened inner rest _ _ within behind =>
    rw [List.foldl_cons, List.foldl_append, List.foldl_cons]
    have undone := get_releases_opens domainMap _ opened present
      (within (useDomain domainMap (.opens opened)) (present_opens domainMap opened present))
    rw [behind _ ?_ domainName]
    · exact undone domainName
    · intro other entry found
      exact present other entry ((undone other).symm.trans found)

/-- Every domain that was free before the uses can be removed after them. -/
def Removable (uses : List (Use String)) : Prop :=
  ∀ domainMap : SafeMap String DomainManager, SafeMap.Idle domainMap → ∀ domainName ∈ domainMap.keys,
    (SafeMap.destroyElement (uses.foldl useDomain domainMap) domainName).1 = .yes

theorem removable_of_paired {uses : List (Use String)} (paired : Paired uses) : Removable uses := by
  intro domainMap idle domainName member
  have present : Present domainMap := fun other entry found => (idle other entry found).1
  cases found : domainMap.get domainName with
  | none => exact absurd member (get_eq_none_iff.mp found)
  | some entry =>
    obtain ⟨element, readers⟩ := entry
    cases element with
    | none => exact absurd (idle domainName _ found).1 (by simp)
    | some element =>
      have free : readers = 0 := (idle domainName _ found).2
      subst free
      unfold SafeMap.destroyElement
      rw [get_after_paired paired domainMap present domainName, found]

end

/-- Every request but those that leave a domain open pairs its uses up, and the domains can be removed afterwards. -/
theorem domains_balanced_iff (server : Server) (web : WebResources) (request : ClientRequest) (m : SessionsManager) :
    (Paired (procHTTPClientContent server web request m).uses ∧
      Removable (procHTTPClientContent server web request m).uses) ↔ ¬LeavesOpen server web request m := by
  rw [← procHTTPClientContent_paired_iff]
  exact ⟨fun both => both.1, fun paired => ⟨paired, removable_of_paired paired⟩⟩

def sampleResources : WebResources := ⟨"", fun _ => false, false, fun _ => false, fun _ => none⟩

/-- The pool behind a login that has been confirmed. -/
def confirmedPool : SessionsManager :=
  SessionsManager.poolAfter 900 100
    [.request Handler.sampleServer Handler.loginRequest, .request Handler.sampleServer Handler.confirmRequest]

def listRequest : ClientRequest := Handler.sessionRequest "PASSWDLIST" "a:b" "d"

theorem domains_not_balanced :
    ¬∀ (server : Server) (web : WebResources) (request : ClientRequest) (m : SessionsManager),
      Paired (procHTTPClientContent server web request m).uses ∧
        Removable (procHTTPClientContent server web request m).uses := by
  intro balanced
  have paired := (balanced Handler.sampleServer sampleResources listRequest confirmedPool).1
  have uses : (procHTTPClientContent Handler.sampleServer sampleResources listRequest confirmedPool).uses =
      [.opens "corp"] := by
    decide +kernel
  rw [uses] at paired
  exact not_paired_of_left .nil .nil "corp" paired

end Mantids.RPC.DomainCalls
