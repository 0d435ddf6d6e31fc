import Mantids.Protocols.FileServer
import Mantids.RPC.WebClientHandler

/-! The resource filters (`resourcesfilter.cpp`), and what a request for a file (`procResource_File` of
`webclienthandler.cpp`) makes of their verdict. -/

set_option autoImplicit false

namespace Mantids.RPC.Web

open Memory MIME HTTP

/-! ## The filters -/

inductive FilterAction where
  | accept
  | deny
  | redirect
  deriving DecidableEq

/-- An expression is what `regex_match` answers for a C string. -/
structure Filter where
  regexs : List (Bytes → Bool)
  redirectLocation : Bytes
  reqAttrib : List String
  rejAttrib : List String
  action : FilterAction

structure FilterEvaluation where
  accept : Bool := true
  redirectLocation : Bytes := []
  deriving DecidableEq

/-- What a session says about its user. -/
structure SessionUser where
  authUser : String
  authDomain : String
  appName : String

section
variable (hSession : Option SessionUser) (authorizer : Option Authorizer)

/-- The chain of one turn of both loops over attributes: without a session no attribute is there. -/
def hasAttrib (attrib : String) : Bool :=
  match hSession, authorizer with
  | some session, some authorizer =>
    if attrib = "loggedin" then session.authUser ≠ ""
    else authorizer.accountValidateAttribute session.authUser ⟨session.appName, attrib⟩
  | _, _ => false

def Filter.evaluation (filter : Filter) : FilterEvaluation :=
  match filter.action with
  | .accept => { accept := true }
  | .redirect => { accept := true, redirectLocation := filter.redirectLocation }
  | .deny => { accept := false }

def evaluateAction (uri : Bytes) : List Filter → FilterEvaluation
  | [] => { accept := true }
  | filter :: filters =>
    let allAttribsDone := (filter.reqAttrib.all fun attrib => hasAttrib hSession authorizer attrib) &&
      filter.rejAttrib.all fun attrib => !hasAttrib hSession authorizer attrib
    if !allAttribsDone then evaluateAction uri filters
    else if filter.regexs.any fun regex => regex (HTTP.cString uri) then filter.evaluation
    else evaluateAction uri filters

end

/-! ## A request for a file -/

/-- What the handler is configured with, the session of the request, and the domains. -/
structure Resources where
  files : HTTP.FileSystem
  resourcesLocalPath : Bytes
  resourceFilter : Option (List Filter)
  useHTMLIEngine : Bool
  redirectOn404 : Bytes
  authSession : Option SessionUser
  openDomain : String → Option Authorizer
  /-- What the engine makes of the response. -/
  htmliEngine : (sRealFullPath : Bytes) → ServerResponse → RetCode × ServerResponse

/-- The response, the values of its header `Location`, and the paths that went through the engine. -/
structure Answer where
  server : FileServer
  location : List Bytes
  engineRuns : List Bytes

namespace Answer

/-- `setDataStreamer(nullptr)`. -/
def dropDataStreamer (answer : Answer) : Answer :=
  { answer with server := { answer.server with serverResponse :=
      { dataStreamer := none
        contentType := []
        bNoSniffContentType := false
        cacheControl := ⟨true, true, true, false, 0⟩
        lastModified := [] } } }

/-- A temporary one, as the handler's calls leave it. -/
def setResponseRedirect (answer : Answer) (location : Bytes) : RetCode × Answer :=
  (.temporaryRedirect, { answer with location := [location] }.dropDataStreamer)

end Answer

namespace Resources

/-- The page, the index of a directory, and the path itself. -/
def getLocalFile (resources : Resources) (server : FileServer) : Bool × LocalRequestedFileInfo × FileServer :=
  let getLocalFilePathFromURI2 (server : FileServer) (defaultFileAppend : Bytes) :=
    server.getLocalFilePathFromURI2 resources.files resources.resourcesLocalPath defaultFileAppend false
  let (found, info, server) := getLocalFilePathFromURI2 server (ascii ".html")
  if found then (true, info, server)
  else
    let (found, info, server) := getLocalFilePathFromURI2 server (ascii "index.html")
    if found then (true, info, server) else getLocalFilePathFromURI2 server []

def authorizer (resources : Resources) : Option Authorizer :=
  resources.authSession.bind fun session => resources.openDomain session.authDomain

def evaluate (resources : Resources) (info : LocalRequestedFileInfo) : FilterEvaluation :=
  resources.resourceFilter.elim {} (evaluateAction resources.authSession resources.authorizer info.sRealRelativePath)

def procResourceFile (resources : Resources) (answer : Answer) : RetCode × Answer :=
  if resources.resourcesLocalPath = [] then (.notFound, answer)
  else
    let (found, fileInfo, server) := resources.getLocalFile answer.server
    let answer := { answer with server }
    let (ret, answer) :=
      if found && !fileInfo.isDir then
        let e := resources.evaluate fileInfo
        if e.accept then
          if e.redirectLocation = [] then (.ok, answer) else answer.setResponseRedirect e.redirectLocation
        else (.forbidden, answer)
      else (.notFound, answer)
    let answer := if ret ≠ .ok then answer.dropDataStreamer else answer
    let (ret, answer) :=
      -- the content type is the one that the lookup has set, unless the response was dropped
      if resources.useHTMLIEngine ∧ answer.server.serverResponse.contentType = ascii "text/html" then
        let (ret, serverResponse) := resources.htmliEngine fileInfo.sRealFullPath answer.server.serverResponse
        (ret, { answer with
          server := { answer.server with serverResponse }
          engineRuns := answer.engineRuns ++ [fileInfo.sRealFullPath] })
      else (ret, answer)
    if ret = .notFound ∧ resources.redirectOn404 ≠ [] then answer.setResponseRedirect resources.redirectOn404
    else (ret, answer)

end Resources

/-! ## The first filter that applies -/

section
variable (hSession : Option SessionUser) (authorizer : Option Authorizer)

/-- The session holds an attribute: a user for `loggedin`, what the authorizer says for any other. -/
def Holds (attrib : String) : Prop :=
  ∃ session ∈ hSession, ∃ manager ∈ authorizer,
    (attrib = "loggedin" ∧ session.authUser ≠ "") ∨
      (attrib ≠ "loggedin" ∧ manager.accountValidateAttribute session.authUser ⟨session.appName, attrib⟩ = true)

/-- The attributes of a filter match the session, and one of its expressions the path. -/
structure Applies (uri : Bytes) (filter : Filter) : Prop where
  required : ∀ attrib ∈ filter.reqAttrib, Holds hSession authorizer attrib
  rejected : ∀ attrib ∈ filter.rejAttrib, ¬Holds hSession authorizer attrib
  expressed : ∃ regex ∈ filter.regexs, regex (HTTP.cString uri) = true

/-- The filter that decides, if any does. -/
inductive Decides (uri : Bytes) (filters : List Filter) : Option Filter → Prop where
  | first (before after : List Filter) (filter : Filter) (here : filters = before ++ filter :: after)
      (passed : ∀ other ∈ before, ¬Applies hSession authorizer uri other)
      (applies : Applies hSession authorizer uri filter) : Decides uri filters (some filter)
  | none (passed : ∀ other ∈ filters, ¬Applies hSession authorizer uri other) : Decides uri filters none

variable {hSession authorizer}

theorem hasAttrib_iff {attrib : String} :
    hasAttrib hSession authorizer attrib = true ↔ Holds hSession authorizer attrib := by
  unfold Holds hasAttrib
  cases hSession with
  | none => simp
  | some session =>
    cases authorizer with
    | none => simp
    | some manager => by_cases loggedin : attrib = "loggedin" <;> simp [loggedin]

theorem applies_iff {uri : Bytes} {filter : Filter} :
    Applies hSession authorizer uri filter ↔
      ((filter.reqAttrib.all fun attrib => hasAttrib hSession authorizer attrib) &&
        filter.rejAttrib.all fun attrib => !hasAttrib hSession authorizer attrib) = true ∧
      (filter.regexs.any fun regex => regex (HTTP.cString uri)) = true := by
  simp only [Bool.and_eq_true, List.all_eq_true, List.any_eq_true, Bool.not_eq_true', ← Bool.not_eq_true,
    hasAttrib_iff]
  constructor
  · intro applies
    exact ⟨⟨applies.required, applies.rejected⟩, applies.expressed⟩
  · intro both
    exact ⟨both.1.1, both.1.2, both.2⟩

theorem evaluateAction_cons_of_applies {uri : Bytes} {filter : Filter}
    (applies : Applies hSession authorizer uri filter) (filters : List Filter) :
    evaluateAction hSession authorizer uri (filter :: filters) = filter.evaluation := by
  obtain ⟨attribs, matching⟩ := applies_iff.mp applies
  simp only [evaluateAction, attribs, matching, Bool.not_true, Bool.false_eq_true, if_false, if_true]

theorem evaluateAction_cons_of_not_applies {uri : Bytes} {filter : Filter}
    (passed : ¬Applies hSession authorizer uri filter) (filters : List Filter) :
    evaluateAction hSession authorizer uri (filter :: filters) = evaluateAction hSession authorizer uri filters := by
  rw [applies_iff, not_and] at passed
  rw [evaluateAction]
  by_cases done : ((filter.reqAttrib.all fun attrib => hasAttrib hSession authorizer attrib) &&
      filter.rejAttrib.all fun attrib => !hasAttrib hSession authorizer attrib) = true
  · simp only [done, Bool.not_true, Bool.false_eq_true, if_false, if_neg (passed done)]
  · simp only [done, Bool.not_false, if_true]

/-- The verdict is the action of the filter that decides. -/
theorem evaluateAction_of_decides {uri : Bytes} {filters : List Filter} {decision : Option Filter}
    (decides : Decides hSession authorizer uri filters decision) :
    evaluateAction hSession authorizer uri filters = decision.elim {} Filter.evaluation := by
  cases decides with
  | first before after filter here passed applies =>
    subst here
    induction before with
    | nil => exact evaluateAction_cons_of_applies applies after
    | cons other before ih =>
      rw [List.cons_append, evaluateAction_cons_of_not_applies (passed other List.mem_cons_self)]
      exact ih fun later mem => passed later (List.mem_cons_of_mem _ mem)
  | none passed =>
    induction filters with
    | nil => rfl
    | cons other filters ih =>
      rw [evaluateAction_cons_of_not_applies (passed other List.mem_cons_self)]
      exact ih fun later mem => passed later (List.mem_cons_of_mem _ mem)

/-- One filter decides, or none applies. -/
theorem exists_decides (uri : Bytes) (filters : List Filter) :
    ∃ decision, Decides hSession authorizer uri filters decision := by
  induction filters with
  | nil => exact ⟨none, .none (by simp)⟩
  | cons filter filters ih =>
    by_cases applies : Applies hSession authorizer uri filter
    · exact ⟨some filter, .first [] filters filter rfl (by simp) applies⟩
    · obtain ⟨decision, decides⟩ := ih
      cases decides with
      | first before after later here passed laterApplies =>
        refine ⟨some later, .first (filter :: before) after later (by rw [here, List.cons_append]) ?_ laterApplies⟩
        exact List.forall_mem_cons.mpr ⟨applies, passed⟩
      | none passed => exact ⟨none, .none (List.forall_mem_cons.mpr ⟨applies, passed⟩)⟩

end

/-! ## What is not served -/

section
variable {files : HTTP.FileSystem} {server : FileServer} {sServerDir defaultFileAppend : Bytes}

/-- A file that is found is the body of the response already, whatever its filters say. -/
theorem mapped_of_found
    (found : (server.getLocalFilePathFromURI2 files sServerDir defaultFileAppend false).1 = true)
    (file : (server.getLocalFilePathFromURI2 files sServerDir defaultFileAppend false).2.1.isDir = false) :
    (server.getLocalFilePathFromURI2 files sServerDir defaultFileAppend false).2.2.serverResponse.dataStreamer ≠
      none := by
  revert found file
  unfold FileServer.getLocalFilePathFromURI2
  split
  case h_1 => simp
  case h_2 dir real =>
    dsimp only
    split
    case h_1 => simp
    case h_2 =>
      split
      case h_1 => simp
      case h_2 path errno resolved =>
        split_ifs with transversal isDir appended isReg executable mapped
        all_goals simp_all

end

namespace Resources

section
variable (resources : Resources) (answer : Answer)

/-- The request leads to a file below the resources' path. -/
structure Found (server : FileServer) : Prop where
  path : resources.resourcesLocalPath ≠ []
  got : (resources.getLocalFile server).1 = true
  file : (resources.getLocalFile server).2.1.isDir = false

/-- The filter that decides on the file found. -/
def DecidedBy (server : FileServer) (filter : Filter) : Prop :=
  Decides resources.authSession resources.authorizer (resources.getLocalFile server).2.1.sRealRelativePath
    (resources.resourceFilter.getD []) (some filter)

/-- The verdict is that of the first filter that applies, and what it denies or redirects is not sent. -/
structure Filtered : Prop where
  first : ∀ uri, ∃ decision,
    Decides resources.authSession resources.authorizer uri (resources.resourceFilter.getD []) decision ∧
      evaluateAction resources.authSession resources.authorizer uri (resources.resourceFilter.getD []) =
        decision.elim {} Filter.evaluation
  unserved : ∀ filter, resources.Found answer.server → resources.DecidedBy answer.server filter →
    filter.action ≠ .accept →
    (resources.procResourceFile answer).2.server.serverResponse.dataStreamer = none ∧
      (resources.procResourceFile answer).2.engineRuns = answer.engineRuns

variable {resources answer}

theorem mapped_of_getLocalFile {server : FileServer} (found : (resources.getLocalFile server).1 = true)
    (file : (resources.getLocalFile server).2.1.isDir = false) :
    (resources.getLocalFile server).2.2.serverResponse.dataStreamer ≠ none := by
  revert found file
  unfold getLocalFile
  dsimp only
  split
  case isTrue page => exact fun _ => mapped_of_found page
  case isFalse =>
    split
    case isTrue index => exact fun _ => mapped_of_found index
    case isFalse => exact mapped_of_found

theorem evaluate_of_decidedBy {server : FileServer} {filter : Filter} (decided : resources.DecidedBy server filter) :
    resources.evaluate (resources.getLocalFile server).2.1 = filter.evaluation := by
  have verdict := evaluateAction_of_decides decided
  unfold evaluate
  cases filters : resources.resourceFilter with
  | none =>
    rw [DecidedBy, filters] at decided
    cases decided with
    | first before after _ here => simp at here
  | some filters' => rwa [filters] at verdict

theorem noEngine_of_dropped (answer : Answer) :
    answer.dropDataStreamer.server.serverResponse.contentType ≠ ascii "text/html" := by
  have tagged : ascii "text/html" ≠ [] := by decide
  exact tagged.symm

/-- What is not accepted, or goes elsewhere, is dropped, and a dropped body does not come back. -/
theorem unserved_of_evaluation (found : resources.Found answer.server)
    (closed : (resources.evaluate (resources.getLocalFile answer.server).2.1).accept = false ∨
      (resources.evaluate (resources.getLocalFile answer.server).2.1).redirectLocation ≠ []) :
    (resources.procResourceFile answer).2.server.serverResponse.dataStreamer = none ∧
      (resources.procResourceFile answer).2.engineRuns = answer.engineRuns := by
  obtain ⟨path, got, file⟩ := found
  unfold procResourceFile
  simp only [path, got, file, if_false, Bool.not_false, Bool.and_true, if_true]
  by_cases accepted : (resources.evaluate (resources.getLocalFile answer.server).2.1).accept = true
  · have elsewhere := closed.resolve_left (by simp only [accepted, Bool.true_eq_false, not_false_iff])
    simp only [accepted, elsewhere, if_true, if_false, Answer.setResponseRedirect, ne_eq, reduceCtorEq, not_false_iff,
      noEngine_of_dropped, and_false, false_and]
    exact ⟨rfl, rfl⟩
  · simp only [accepted, if_false, ne_eq, reduceCtorEq, not_false_iff, if_true, noEngine_of_dropped, and_false,
      false_and, Bool.false_eq_true]
    exact ⟨rfl, rfl⟩

/-- What is accepted goes to the engine or is streamed. -/
theorem served_of_evaluation (found : resources.Found answer.server)
    (accepted : (resources.evaluate (resources.getLocalFile answer.server).2.1).accept = true)
    (here : (resources.evaluate (resources.getLocalFile answer.server).2.1).redirectLocation = []) :
    (resources.procResourceFile answer).2.server.serverResponse.dataStreamer ≠ none ∨
      (resources.procResourceFile answer).2.engineRuns ≠ answer.engineRuns := by
  obtain ⟨path, got, file⟩ := found
  have mapped := mapped_of_getLocalFile got file
  unfold procResourceFile
  simp only [path, got, file, accepted, here, if_false, Bool.not_false, Bool.and_true, if_true, ne_eq,
    not_true_eq_false]
  by_cases engine : resources.useHTMLIEngine = true ∧
    (resources.getLocalFile answer.server).2.2.serverResponse.contentType = ascii "text/html"
  · right
    simp only [engine, and_self, if_true]
    -- whatever the engine returns, its run is noted
    split <;> simp [Answer.setResponseRedirect, Answer.dropDataStreamer]
  · left
    simp only [engine, if_false, reduceCtorEq, false_and]
    exact mapped

/-- Exactly a redirection without a location is served. -/
theorem filtered_iff (resources : Resources) (answer : Answer) :
    Filtered resources answer ↔
      ¬(resources.Found answer.server ∧ ∃ filter, resources.DecidedBy answer.server filter ∧
        filter.action = .redirect ∧ filter.redirectLocation = []) := by
  constructor
  · intro filtered wrong
    obtain ⟨found, filter, decided, redirect, missing⟩ := wrong
    have evaluated := evaluate_of_decidedBy decided
    simp only [Filter.evaluation, redirect, missing] at evaluated
    have refused : filter.action ≠ .accept := by simp only [redirect, ne_eq, reduceCtorEq, not_false_iff]
    obtain ⟨dropped, still⟩ := filtered.unserved filter found decided refused
    obtain streamed | run := served_of_evaluation found (by rw [evaluated]) (by rw [evaluated])
    · exact streamed dropped
    · exact run still
  · intro right
    refine ⟨fun uri => ?_, fun filter found decided action => ?_⟩
    · obtain ⟨decision, decides⟩ := exists_decides uri (resources.resourceFilter.getD [])
      exact ⟨decision, decides, evaluateAction_of_decides decides⟩
    · apply unserved_of_evaluation found
      rw [evaluate_of_decidedBy decided]
      cases kind : filter.action with
      | accept => exact absurd kind action
      | deny => simp only [Filter.evaluation, kind, true_or]
      | redirect =>
        right
        intro missing
        exact right ⟨found, filter, decided, kind, by simpa only [Filter.evaluation, kind] using missing⟩

end

theorem root_valid :
    ∀ name ∈ ([] : List Bytes), name ≠ [] ∧ 47 ∉ name ∧ 0 ∉ name ∧ name ≠ [46] ∧ name ≠ [46, 46] := by
  simp

/-- One static page behind one filter, which redirects everything and gives no location. -/
def unlocated : Resources where
  files := ⟨fun _ => .resolved ⟨[], root_valid⟩ 0, fun _ => (false, ⟨false, false, 0⟩), fun _ => false, fun _ => false,
    fun _ => false⟩
  resourcesLocalPath := ascii "/"
  resourceFilter := some [⟨[fun _ => true], [], [], [], .redirect⟩]
  useHTMLIEngine := true
  redirectOn404 := []
  authSession := none
  openDomain := fun _ => none
  htmliEngine := fun _ response => (.ok, response)

def secretRequest : Answer where
  server :=
    { uri := ascii "/a"
      staticContentElements := fun path => if path = ascii "/a" then some (ascii "b") else none
      mimeTypes := fun _ => none
      includeServerDate := false
      currentFileExtension := []
      serverResponse := ⟨none, [], false, ⟨false, true, false, false, 0⟩, []⟩ }
  location := []
  engineRuns := []

theorem secret_served : ¬Filtered unlocated secretRequest := by
  intro filtered
  have found : unlocated.Found secretRequest.server := ⟨by decide +kernel, by decide +kernel, by decide +kernel⟩
  have decided : unlocated.DecidedBy secretRequest.server ⟨[fun _ => true], [], [], [], .redirect⟩ :=
    .first [] [] _ rfl (by simp) ⟨by simp, by simp, fun _ => true, by simp, rfl⟩
  have dropped := (filtered.unserved _ found decided (by simp)).1
  have streamed : (unlocated.procResourceFile secretRequest).2.server.serverResponse.dataStreamer =
      some (.staticContent (ascii "b")) := by
    decide +kernel
  rw [streamed] at dropped
  cases dropped

end Resources

end Mantids.RPC.Web
