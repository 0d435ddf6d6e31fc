import Mantids.Helpers.HexCodes
import Mantids.RPC.CSRFProtection

/-! The argument of the methods that `procJAPI_Exec` runs (`webclienthandler.cpp`), for a direct request and for
a call that a page inlines. -/

set_option autoImplicit false

namespace Mantids.RPC

open Auth Memory Helpers

/-- What the JSON library has: a fresh value, and what a text is read as. -/
structure JSONReader2 (J : Type) where
  null : J
  parse : String → Option J

/-- A method that was run, and its payload. -/
structure Execution (J : Type) where
  methodName : String
  payload : J
  deriving DecidableEq

/-- A code of `none` is the fault of a verdict asked for a null session. -/
structure Executed (J : Type) where
  code : Option RetCode
  ran : Option (Execution J)
  handler : Handler

namespace Handler

section
variable {J : Type} (json : JSONReader2 J) (server : Server) (request : ClientRequest)

def runRPCMethod (domainName methodName : String) (payload : J) : RetCode × Option (Execution J) :=
  match server.methodsManager.methods.get methodName with
  | none => (.notFound, none)
  | some _ =>
    match server.authDomains domainName with
    | none => (.notFound, none)
    | some _ => (.ok, some ⟨methodName, payload⟩)

/-- The user and the domain: those of the session, if there is one. -/
def callerNames (h : Handler) : String × String :=
  ((h.authSession.map (·.authUser)).getD (request.postVars "user"),
    (h.authSession.map (·.authDomain)).getD (request.postVars "domain"))

/-- The additional factors that are right. -/
def extraTmpIndexes (extraAuths : List Authentication) (h : Handler) : List PassIndex :=
  let (userName, domainName) := callerNames request h
  (extraAuths.filter fun auth => isPasswordAuthenticated (authenticateIn server userName domainName auth).1).map
    (·.iPassIDX)

/-- `procJAPI_Exec` with its payload. An external place for the answer stands for an inlined call. -/
def procJAPIExecPayload (extraAuths : List Authentication) (h : Handler) (useExternalPayload : Bool)
    (sMethodName sPayloadIn : String) : Executed J :=
  let domainName := (callerNames request h).2
  if !useExternalPayload && !csrfValidate server request h then ⟨some .notFound, none, h⟩
  -- what is asked for is the variable of the request
  else if request.postVars "payload" ≠ "" ∧ (json.parse sPayloadIn).isNone then ⟨some .badRequest, none, h⟩
  else
    let jPayloadIn := if request.postVars "payload" ≠ "" then (json.parse sPayloadIn).getD json.null else json.null
    if server.methodsManager.getMethodRequireFullAuth sMethodName ∧ h.authSession.isNone then
      ⟨some .notFound, none, h⟩
    else
      match server.authDomains domainName with
      | none => ⟨some .notFound, none, h⟩
      | some authorizer =>
        match server.methodsManager.validateRPCMethodPerms authorizer.toAuthorizer h.authSession server.now sMethodName
            (extraTmpIndexes server request extraAuths h) with
        | none => ⟨none, none, h⟩
        | some ⟨.ok, _, _⟩ =>
          let (ret, ran) := runRPCMethod server domainName sMethodName jPayloadIn
          ⟨some ret, ran, h.updateLastActivity server.now⟩
        | some ⟨.notAuthorized, _, _⟩ => ⟨some .unauthorized, none, h⟩
        | some ⟨.methodNotFound, _, _⟩ => ⟨some .notFound, none, h⟩

end

end Handler

/-! ## The two callers -/

def bytesText (text : Bytes) : String := .ofList (text.map fun byte => Char.ofNat byte.toNat)

/-- The groups of `([^\(]+)\(([^\)]*)\)`, where it is found first. -/
def functionGroups (functionDef : Bytes) : Option (Bytes × Bytes) :=
  let named := functionDef.dropWhile (· = 40)
  match named.dropWhile (· ≠ 40) with
  | [] => none
  | _ :: rest => if 41 ∈ rest then some (named.takeWhile (· ≠ 40), rest.takeWhile (· ≠ 41)) else none

/-- The name and the input of the function in a `JFUNC` tag. -/
def htmliEngineJFUNC (functionDef : Bytes) : Option (String × String) :=
  (functionGroups functionDef).map fun (functionName, functionInput) =>
    (bytesText functionName, bytesText (HexCodes.replaced functionInput))

inductive MethodCall where
  | direct
  | inlined (functionDef : Bytes)

namespace MethodCall

section
variable {J : Type} (json : JSONReader2 J) (server : Server) (request : ClientRequest)

/-- Whether it is inlined, the method and `sPayloadIn`. -/
def arguments : MethodCall → Option (Bool × String × String)
  | direct => some (false, request.getVars "method", request.postVars "payload")
  | inlined functionDef => (htmliEngineJFUNC functionDef).map fun (functionName, functionInput) =>
    (true, functionName, functionInput)

/-- What runs is given what the payload of the call says, and a payload that says nothing stops it. -/
structure Follows (sPayloadIn : String) (executed : Executed J) : Prop where
  argument : ∀ execution, executed.ran = some execution →
    if sPayloadIn = "" then execution.payload = json.null else json.parse sPayloadIn = some execution.payload
  stopped : sPayloadIn ≠ "" → json.parse sPayloadIn = none → executed.ran = none

def Given (extraAuths : List Authentication) (h : Handler) (call : MethodCall) : Prop :=
  ∀ useExternalPayload sMethodName sPayloadIn,
    call.arguments request = some (useExternalPayload, sMethodName, sPayloadIn) →
      Follows json sPayloadIn
        (Handler.procJAPIExecPayload json server request extraAuths h useExternalPayload sMethodName sPayloadIn)

/-- The method exists, in a domain that exists, and the session and the factors are enough for it. -/
def Admitted (extraAuths : List Authentication) (h : Handler) (sMethodName : String) : Prop :=
  ¬(server.methodsManager.getMethodRequireFullAuth sMethodName = true ∧ h.authSession.isNone = true) ∧
    ∃ authorizer verdict, server.authDomains (Handler.callerNames request h).2 = some authorizer ∧
      server.methodsManager.validateRPCMethodPerms authorizer.toAuthorizer h.authSession server.now sMethodName
        (Handler.extraTmpIndexes server request extraAuths h) = some verdict ∧ verdict.code = .ok

/-- The page was asked for with a payload of its own, or the call has none, or the text of null, or is not admitted. -/
def Spared (extraAuths : List Authentication) (h : Handler) : MethodCall → Prop
  | direct => True
  | inlined functionDef => ∀ functionName functionInput, htmliEngineJFUNC functionDef = some (functionName, functionInput) →
    request.postVars "payload" ≠ "" ∨ functionInput = "" ∨ json.parse functionInput = some json.null ∨
      ¬Admitted server request extraAuths h functionName

end

end MethodCall

/-! ## What runs -/

namespace MethodCall

section
variable {J : Type} {json : JSONReader2 J} {server : Server} {request : ClientRequest} {extraAuths : List Authentication}
  {h : Handler}

theorem runRPCMethod_ran {domainName methodName : String} {authorizer : DomainManager}
    (domain : server.authDomains domainName = some authorizer) (registered : server.methodsManager.methods.get methodName ≠ none)
    (payload : J) : Handler.runRPCMethod server domainName methodName payload = (.ok, some ⟨methodName, payload⟩) := by
  unfold Handler.runRPCMethod
  cases method : server.methodsManager.methods.get methodName with
  | none => exact absurd method registered
  | some _ => simp only [domain]

/-- A verdict in favour is of a method that exists. -/
theorem registered_of_ok {auth : Authorizer} {session : Option Session} {now : Time} {methodName : String}
    {extraTmpIndexes : List PassIndex} {verdict : Verdict} {RPCMethod : Type} {manager : MethodsManager RPCMethod}
    (validated : manager.validateRPCMethodPerms auth session now methodName extraTmpIndexes = some verdict)
    (ok : verdict.code = .ok) : manager.methods.get methodName ≠ none := by
  intro unknown
  unfold MethodsManager.validateRPCMethodPerms at validated
  rw [unknown] at validated
  cases validated
  cases ok

/-- A method that runs is admitted, and its argument hangs on the variable of the request. -/
theorem ran_iff {useExternalPayload : Bool} {sMethodName sPayloadIn : String} {execution : Execution J} :
    (Handler.procJAPIExecPayload json server request extraAuths h useExternalPayload sMethodName sPayloadIn).ran =
        some execution ↔
      (useExternalPayload = true ∨ Handler.csrfValidate server request h = true) ∧
        ¬(request.postVars "payload" ≠ "" ∧ (json.parse sPayloadIn).isNone = true) ∧
        Admitted server request extraAuths h sMethodName ∧
        execution = ⟨sMethodName,
          if request.postVars "payload" ≠ "" then (json.parse sPayloadIn).getD json.null else json.null⟩ := by
  unfold Handler.procJAPIExecPayload Admitted
  by_cases refused : (!useExternalPayload && !Handler.csrfValidate server request h) = true
  · rw [if_pos refused]
    rw [Bool.and_eq_true, Bool.not_eq_true', Bool.not_eq_true'] at refused
    simp [refused.1, refused.2]
  rw [if_neg refused]
  have valid : useExternalPayload = true ∨ Handler.csrfValidate server request h = true := by
    cases useExternalPayload <;> simp_all
  by_cases bad : request.postVars "payload" ≠ "" ∧ (json.parse sPayloadIn).isNone = true
  · rw [if_pos bad]
    exact iff_of_false (fun impossible => by cases impossible) fun both => both.2.1 bad
  rw [if_neg bad]
  by_cases full : server.methodsManager.getMethodRequireFullAuth sMethodName = true ∧ h.authSession.isNone = true
  · rw [if_pos full]
    exact iff_of_false (fun impossible => by cases impossible) fun both => both.2.2.1.1 full
  rw [if_neg full]
  cases domain : server.authDomains (Handler.callerNames request h).2 with
  | none =>
    refine iff_of_false (fun impossible => by cases impossible) fun both => ?_
    obtain ⟨_, _, impossible, _⟩ := both.2.2.1.2
    cases impossible
  | some authorizer =>
    dsimp only
    cases validated : server.methodsManager.validateRPCMethodPerms authorizer.toAuthorizer h.authSession server.now
        sMethodName (Handler.extraTmpIndexes server request extraAuths h) with
    | none =>
      refine iff_of_false (fun impossible => by cases impossible) fun both => ?_
      obtain ⟨_, _, same, impossible, _⟩ := both.2.2.1.2
      cases same
      rw [validated] at impossible
      cases impossible
    | some verdict =>
      obtain ⟨code, left, attribs⟩ := verdict
      cases code with
      | ok =>
        have registered := registered_of_ok validated rfl
        dsimp only
        rw [runRPCMethod_ran domain registered]
        simp only [Option.some.injEq, valid, bad, full, not_false_eq_true, true_and]
        constructor
        · intro same
          exact ⟨⟨authorizer, _, rfl, validated, rfl⟩, same.symm⟩
        · exact fun both => both.2.symm
      | methodNotFound =>
        refine iff_of_false (fun impossible => by cases impossible) fun both => ?_
        obtain ⟨_, _, same, impossible, ok⟩ := both.2.2.1.2
        cases same
        rw [validated] at impossible
        cases impossible
        cases ok
      | notAuthorized =>
        refine iff_of_false (fun impossible => by cases impossible) fun both => ?_
        obtain ⟨_, _, same, impossible, ok⟩ := both.2.2.1.2
        cases same
        rw [validated] at impossible
        cases impossible
        cases ok

/-- A direct request is answered as the handler of requests answers it. -/
theorem procJAPIExecPayload_direct (reads : ∀ text, server.isJSON text = (json.parse text).isSome) :
    let executed := Handler.procJAPIExecPayload json server request extraAuths h false (request.getVars "method")
      (request.postVars "payload")
    (executed.code, executed.handler) = Handler.procJAPIExec server request extraAuths h := by
  unfold Handler.procJAPIExecPayload Handler.procJAPIExec
  simp only [Handler.callerNames, Handler.extraTmpIndexes, Bool.not_false, Bool.true_and, reads, Option.not_isSome]
  split
  · rfl
  split
  · rfl
  split
  · rfl
  cases domain : server.authDomains ((h.authSession.map (·.authDomain)).getD (request.postVars "domain")) with
  | none => rfl
  | some authorizer =>
    dsimp only
    cases validated : server.methodsManager.validateRPCMethodPerms authorizer.toAuthorizer h.authSession server.now
        (request.getVars "method") ((extraAuths.filter fun auth => isPasswordAuthenticated (Handler.authenticateIn server
          ((h.authSession.map (·.authUser)).getD (request.postVars "user"))
          ((h.authSession.map (·.authDomain)).getD (request.postVars "domain")) auth).1).map (·.iPassIDX)) with
    | none => rfl
    | some verdict =>
      obtain ⟨code, left, attribs⟩ := verdict
      cases code with
      | ok =>
        dsimp only
        rw [runRPCMethod_ran domain (registered_of_ok validated rfl)]
      | methodNotFound => rfl
      | notAuthorized => rfl

/-- The call that the variable is empty for has no argument, and runs without one. -/
theorem follows_iff (empty : json.parse "" = none) {useExternalPayload : Bool} {sMethodName sPayloadIn : String}
    (valid : useExternalPayload = true ∨ Handler.csrfValidate server request h = true) :
    Follows json sPayloadIn
        (Handler.procJAPIExecPayload json server request extraAuths h useExternalPayload sMethodName sPayloadIn) ↔
      (request.postVars "payload" ≠ "" ∨ sPayloadIn = "" ∨ json.parse sPayloadIn = some json.null ∨
        ¬Admitted server request extraAuths h sMethodName) := by
  have runs := @ran_iff _ json server request extraAuths h useExternalPayload sMethodName sPayloadIn
  by_cases posted : request.postVars "payload" ≠ ""
  case pos =>
    refine iff_of_true ⟨fun execution ran => ?_, fun _ unread => ?_⟩ (.inl posted)
    · obtain ⟨_, read, _, same⟩ := runs.mp ran
      have parsed : ∃ value, json.parse sPayloadIn = some value := by
        rw [← Option.isSome_iff_exists]
        cases parsed : json.parse sPayloadIn with
        | none => exact absurd ⟨posted, by rw [parsed]; rfl⟩ read
        | some _ => rfl
      obtain ⟨value, parsed⟩ := parsed
      rw [same, if_pos posted, parsed, if_neg]
      · rfl
      · intro none
        rw [none, empty] at parsed
        cases parsed
    · rw [Option.eq_none_iff_forall_ne_some]
      intro execution ran
      exact (runs.mp ran).2.1 ⟨posted, by rw [unread]; rfl⟩
  case neg =>
    have ignored : ¬(request.postVars "payload" ≠ "" ∧ (json.parse sPayloadIn).isNone = true) := fun both =>
      posted both.1
    simp only [posted, false_or]
    constructor
    · intro follows
      by_cases none : sPayloadIn = ""
      · exact .inl none
      by_cases admitted : Admitted server request extraAuths h sMethodName
      · refine .inr (.inl ?_)
        have argument := follows.argument ⟨sMethodName, json.null⟩
          (runs.mpr ⟨valid, ignored, admitted, by rw [if_neg posted]⟩)
        rwa [if_neg none] at argument
      · exact .inr (.inr admitted)
    · intro spared
      constructor
      · intro execution ran
        obtain ⟨_, _, admitted, same⟩ := runs.mp ran
        rw [same, if_neg posted]
        rcases spared with none | null | refused
        · rw [if_pos none]
        · split
          · rfl
          · exact null
        · exact absurd admitted refused
      · intro filled unread
        rw [Option.eq_none_iff_forall_ne_some]
        intro execution ran
        rcases spared with none | null | refused
        · exact filled none
        · rw [unread] at null
          cases null
        · exact refused (runs.mp ran).2.2.1

end

/-- Each call but an inlined one, which gets its argument only in a page that was asked for with a payload. -/
theorem executed_payload_iff {J : Type} (json : JSONReader2 J) (empty : json.parse "" = none) (server : Server)
    (request : ClientRequest) (extraAuths : List Authentication) (h : Handler) (call : MethodCall) :
    call.Given json server request extraAuths h ↔ call.Spared json server request extraAuths h := by
  cases call with
  | direct =>
    refine iff_of_true ?_ trivial
    intro useExternalPayload sMethodName sPayloadIn same
    cases same
    by_cases valid : Handler.csrfValidate server request h = true
    · apply (follows_iff empty (.inr valid)).mpr
      by_cases none : request.postVars "payload" = ""
      · exact .inr (.inl none)
      · exact .inl none
    · have refused : Handler.procJAPIExecPayload json server request extraAuths h false (request.getVars "method")
          (request.postVars "payload") = ⟨some .notFound, none, h⟩ := by
        unfold Handler.procJAPIExecPayload
        rw [if_pos (by simpa using valid)]
      rw [refused]
      exact ⟨fun execution impossible => (by cases impossible), fun _ _ => rfl⟩
  | inlined functionDef =>
    simp only [Given, Spared, arguments, Option.map_eq_some_iff]
    constructor
    · intro given functionName functionInput same
      exact (follows_iff empty (.inl rfl)).mp (given true functionName functionInput ⟨_, same, rfl⟩)
    · intro spared useExternalPayload sMethodName sPayloadIn same
      obtain ⟨named, found, same⟩ := same
      cases same
      exact (follows_iff empty (.inl rfl)).mpr (spared _ _ found)

/-- Reads the texts of null and of one. -/
def sampleReader : JSONReader2 (Option Nat) where
  null := none
  parse text := if text = "null" then some none else if text = "1" then some (some 1) else none

/-- A domain where every account is a super user, and one method. -/
def addingServer : Server :=
  { Handler.sampleServer with
    authDomains := fun _ => some ⟨⟨fun _ => true, fun _ _ => true⟩, fun _ _ => (.badPassword, [])⟩
    methodsManager := ((MethodsManager.new "app").addRPCMethod "add" [] () false).2 }

/-- A visitor with a session. -/
def visitor : Handler :=
  { Handler.new { SessionsManager.new with
      sessions := AList.singleton "a:b" ⟨some ⟨Session.new "a:b" 0 0, true, "c", "d"⟩, 0⟩ } "a:b" with
    webSession := some "a:b" }

def pageRequest (payload : String) : ClientRequest where
  uri := "/index.html"
  sessionIdCookie := "a:b"
  csrfTokenHeader := ""
  getVars _ := ""
  postVars name := if name = "payload" then payload else ""

/-- `add(1)` -/
def addOne : MethodCall := .inlined [97, 100, 100, 40, 49, 41]

theorem executed_payload_iff_null :
    (MethodCall.inlined [97, 100, 100, 40, 41]).Given sampleReader addingServer (pageRequest "1") [] visitor ↔
      (MethodCall.inlined [97, 100, 100, 40, 41]).Spared sampleReader addingServer (pageRequest "1") [] visitor :=
  executed_payload_iff sampleReader rfl addingServer (pageRequest "1") [] visitor (.inlined [97, 100, 100, 40, 41])

/-- The method is run with null, and with one where the page's own request has any payload. -/
theorem executed_payload_lost : ¬addOne.Given sampleReader addingServer (pageRequest "") [] visitor ∧
    (Handler.procJAPIExecPayload sampleReader addingServer (pageRequest "") [] visitor true "add" "1").ran =
      some ⟨"add", none⟩ ∧
    (Handler.procJAPIExecPayload sampleReader addingServer (pageRequest "x") [] visitor true "add" "1").ran =
      some ⟨"add", some 1⟩ := by
  have lost : (Handler.procJAPIExecPayload sampleReader addingServer (pageRequest "") [] visitor true "add" "1").ran =
      some ⟨"add", none⟩ := by decide +kernel
  have listed : addOne.arguments (pageRequest "") = some (true, "add", "1") := by decide +kernel
  refine ⟨fun given => ?_, lost, by decide +kernel⟩
  have argument := (given true "add" "1" listed).argument ⟨"add", none⟩ lost
  exact absurd argument (by decide)

end MethodCall

end Mantids.RPC
