import Mantids.Auth.Session

/-! Which RPC methods exist, what they require (`methodsmanager.cpp`,
`methodsattributes_map.cpp`), and the verdict on a call. -/

set_option autoImplicit false

namespace Mantids.RPC

open Auth

structure ApplicationAttrib where
  appName : String
  attribName : String
  deriving DecidableEq, Repr

/-- The two virtual functions of the authentication manager that a verdict asks. -/
structure Authorizer where
  isAccountSuperUser : String → Bool
  accountValidateAttribute : String → ApplicationAttrib → Bool

/-- The multimaps, as lists of their pairs. -/
structure MethodsAttributesMap where
  attribPassIndexes : List (ApplicationAttrib × PassIndex)
  methodAttribs : List (String × ApplicationAttrib)
  requireAllMethodsToBeAuthenticated : Bool

namespace MethodsAttributesMap

def new : MethodsAttributesMap := ⟨[], [], true⟩

def addMethodAttributes (map : MethodsAttributesMap) (methodName : String)
    (attribs : List ApplicationAttrib) : MethodsAttributesMap :=
  { map with methodAttribs := map.methodAttribs ++ attribs.map fun attrib => (methodName, attrib) }

def addAttribPassIndexes (map : MethodsAttributesMap) (attrib : ApplicationAttrib)
    (passIndexes : List PassIndex) : MethodsAttributesMap :=
  { map with
    attribPassIndexes := map.attribPassIndexes ++ passIndexes.map fun passIndex => (attrib, passIndex) }

def getAttribPassIndexes (map : MethodsAttributesMap) (attrib : ApplicationAttrib) : List PassIndex :=
  (map.attribPassIndexes.filter fun entry => entry.1 = attrib).foldl
    (fun r entry => r.insert entry.2) [0]

def getMethodAttribs (map : MethodsAttributesMap) (methodName : String) : List ApplicationAttrib :=
  (map.methodAttribs.filter fun entry => entry.1 = methodName).foldl (fun r entry => r.insert entry.2) []

def getMethodPassIndexes (map : MethodsAttributesMap) (methodName : String) : List PassIndex :=
  let r := (map.getMethodAttribs methodName).foldl
    (fun r attrib => (map.getAttribPassIndexes attrib).foldl (fun r passIndex => r.insert passIndex) r) []
  if map.requireAllMethodsToBeAuthenticated then r.insert 0 else r

/-- What `validateMethod` leaves behind. -/
structure Validation where
  passIndexesLeft : List PassIndex
  attribsLeft : List ApplicationAttrib
  valid : Bool

/-- `none` stands for the call of `getAuthUser` on a null session. -/
def validateMethod (map : MethodsAttributesMap) (auth : Authorizer) (session : Option Session)
    (now : Time) (methodName : String) (extraTmpIndexes : List PassIndex) : Option Validation :=
  match session with
  | none => none
  | some account =>
    if auth.isAccountSuperUser account.authUser then some ⟨[], [], true⟩
    else
      let requiredPassIndexes := map.getMethodPassIndexes methodName
      let requiredAttribs := map.getMethodAttribs methodName
      let passIndexesLeft := requiredPassIndexes.foldl (fun left passIndex =>
        let left :=
          if session.isSome ∧ isPasswordAuthenticated (account.getIdxAuthenticationStatus now passIndex) then
            left.erase passIndex
          else left
        if passIndex ∈ extraTmpIndexes then left.erase passIndex else left) requiredPassIndexes
      let attribsLeft := requiredAttribs.foldl (fun left attrib =>
        if session.isSome ∧ auth.accountValidateAttribute account.authUser attrib then left.erase attrib
        else left) requiredAttribs
      some ⟨passIndexesLeft, attribsLeft, passIndexesLeft.isEmpty && attribsLeft.isEmpty⟩

end MethodsAttributesMap

inductive MethodValidationCode where
  | ok
  | methodNotFound
  | notAuthorized
  deriving DecidableEq, Repr

/-- The verdict, with the reasons reported for a refusal. -/
structure Verdict where
  code : MethodValidationCode
  passIndexesLeft : List PassIndex
  attribsLeft : List String

/-- `RPCMethod` is the type of the registered functions. -/
structure MethodsManager (RPCMethod : Type) where
  appName : String
  methods : Library.Table String RPCMethod
  methodRequireFullAuth : Library.Table String Bool
  methodsAttribs : MethodsAttributesMap

namespace MethodsManager

section
variable {RPCMethod : Type}

def new (appName : String) : MethodsManager RPCMethod := ⟨appName, ∅, ∅, .new⟩

def getAppAttribs (manager : MethodsManager RPCMethod) (reqAttribs : List String) : List ApplicationAttrib :=
  reqAttribs.map fun attribName => ⟨manager.appName, attribName⟩

def addRPCMethod (manager : MethodsManager RPCMethod) (methodName : String) (reqAttribs : List String)
    (rpcMethod : RPCMethod) (requireFullAuth : Bool) : Bool × MethodsManager RPCMethod :=
  match manager.methods.get methodName with
  | none => (true, { manager with
      methods := manager.methods.insert methodName rpcMethod
      methodsAttribs := manager.methodsAttribs.addMethodAttributes methodName
        (manager.getAppAttribs reqAttribs)
      methodRequireFullAuth := manager.methodRequireFullAuth.insert methodName requireFullAuth })
  | some _ => (false, manager)

/-- `operator[]` on the map yields `false` for an unknown name. -/
def getMethodRequireFullAuth (manager : MethodsManager RPCMethod) (methodName : String) : Bool :=
  (manager.methodRequireFullAuth.get methodName).getD false

def validateRPCMethodPerms (manager : MethodsManager RPCMethod) (auth : Authorizer)
    (session : Option Session) (now : Time) (methodName : String) (extraTmpIndexes : List PassIndex) :
    Option Verdict :=
  match manager.methods.get methodName with
  | none => some ⟨.methodNotFound, [], []⟩
  | some _ =>
    if manager.getMethodRequireFullAuth methodName ∧
        !(session.any fun account =>
          account.getIsFullyLoggedIn now .disallowExpiredPasswords && account.isPersistentSession) then
      some ⟨.notAuthorized, [], []⟩
    else
      match manager.methodsAttribs.validateMethod auth session now methodName extraTmpIndexes with
      | none => none
      | some validation =>
        if validation.valid then some ⟨.ok, [], []⟩
        else some ⟨.notAuthorized, validation.passIndexesLeft, validation.attribsLeft.map (·.attribName)⟩

end

end MethodsManager

end Mantids.RPC
