import Mantids.Auth.ObjectSearch
import Mantids.Protocols.RequestLine
import Mantids.RPC.Json

/-! The administrative methods of a directory (`fullauth.cpp`): each reads its fields from the payload
and calls the manager. -/

set_option autoImplicit false

namespace Mantids.RPC.FullAuth

open Library Auth

/-- What a call finds around it: the engine, the clock, what is drawn at random, and who calls. -/
structure Environment where
  crypto : Crypto
  randomSalt : Salt
  confirmationToken : String
  now : Time
  toBase64Obf : String → String
  /-- The text of a number. -/
  valueToString : Rat → String
  sql : Connector
  likes : (pattern text : String) → Bool
  bAuthPolicyMaxTries : Nat
  dirAppName : String
  authUser : String

abbrev Answer := Json × Directory

def retCode (result : Bool × Directory) : Answer := (.object [("retCode", .bool result.1)], result.2)

def refused (db : Directory) : Answer := (.object [("retCode", .bool false)], db)

/-- `uint64_t` to `time_t`. -/
def toTime (value : Nat) : Time := if value < 2 ^ 63 then value else value - 2 ^ 64

def stringListToValue (value : OrderedSet String) : Json := .ofItems (value.elements.map .string)

def attribListToValue (db : Directory) (value : OrderedSet Auth.ApplicationAttrib) : Json :=
  .ofItems (value.elements.map fun attrib =>
    .object [("appName", .string attrib.appName), ("name", .string attrib.attribName),
      ("description", .string (db.attribDescription attrib))])

section
variable (env : Environment) (db : Directory) (payload : Json)

/-- The field that names the account. -/
def accountName : String := payload.asString "accountName" ""

def appName : String := payload.asString "appName" ""

def groupName : String := payload.asString "groupName" ""

def attrib : Auth.ApplicationAttrib := ⟨payload.asString "appName" "", payload.asString "attribName" ""⟩

/-! ## Accounts -/

/-- `[a-zA-Z0-9]+` -/
def validAccountName (accountName : String) : Bool :=
  !accountName.isEmpty && accountName.toList.all fun letter =>
    letter.isLower || letter.isUpper || letter.isDigit

def accountAddSecret : Secret :=
  createNewSecret env.crypto env.randomSalt (payload.asString "secretTempPass" "") .ssha256 true 0 0

def accountAddDetails : AccountDetails where
  sDescription := payload.asString "description" ""
  sEmail := payload.asString "mail" ""
  sExtraData := payload.asString "extraData" ""
  sGivenName := payload.asString "givenName" ""
  sLastName := payload.asString "lastName" ""

def accountAttribs : AccountAttribs where
  confirmed := payload.asBool "isConfirmed" false
  enabled := payload.asBool "isEnabled" false
  superuser := payload.asBool "isSuperuser" false

def accountAdd : Answer :=
  let failed (retMsg : String) : Answer := (.object [("retCode", .bool false), ("retMsg", .string retMsg)], db)
  if db.accountExist (accountName payload) then failed "Account Already Exist"
  else if (accountName payload).isEmpty then failed "Account Name is Empty"
  else if !validAccountName (accountName payload) then failed "Account name have invalid characters"
  else
    let added := db.accountAdd (accountName payload) ⟨env.sql, env.sql, env.sql⟩ env.now env.confirmationToken
      (accountAddSecret env payload) (accountAddDetails payload) (toTime (payload.asUInt64 "expirationDate" 0))
      (accountAttribs payload) env.authUser
    if added.1 then retCode added
    else (.object [("retCode", .bool false), ("retMsg", .string "Internal Error")], added.2)

def accountExist : Answer := retCode (db.accountExist (accountName payload), db)

/-- The text members of an object; other values have no members and the library throws. -/
def jsonToMap : Json → Option (List (String × String))
  | .object members => some (members.filterMap fun entry =>
      match entry.2 with
      | .string value => some (entry.1, value)
      | _ => none)
  | .null => some []
  | _ => none

def strtoul (text : String) : Nat := HTTP.strtoul text.toUTF8.toList

/-- The secret stays the default one where the version is another. -/
def secretFromMap (map : List (String × String)) : Secret :=
  let mget (name : String) : String := (map.lookup name).getD ""
  if mget "VERSION" = "1" then
    let pmode := strtoul (mget "PMODE")
    { hash := mget "HASH"
      ssalt := Encoders.fromHex (mget "SALT") Secret.none.ssalt 4
      expiration := toTime (strtoul (mget "EXPIRATION"))
      forceExpiration := strtoul (mget "FORCE_EXPIRATION") != 0
      gAuthSteps := UInt32.ofNat (strtoul (mget "GAUTH_STEPS"))
      passwordFunction := if pmode < 2 ^ 32 then .ofCode (UInt32.ofNat pmode) else .notFound
      badAttempts := 0 }
  else .none

def accountChangeSecret : Option Answer := do
  let secretData ← payload.member "secretData"
  let map ← jsonToMap secretData
  return retCode (db.accountChangeSecret (accountName payload) env.sql env.sql (secretFromMap map)
    (UInt32.ofNat (payload.asUInt "passIndex" 0)))

def accountRemove : Answer := retCode (db.accountRemove env.sql (accountName payload))

def accountDisable : Answer := retCode (db.accountDisable env.sql (accountName payload) (payload.asBool "disabled" false))

/-- The call is that of `accountDisable`. -/
def accountConfirm : Answer := retCode (db.accountDisable env.sql (accountName payload) (payload.asBool "disabled" false))

/-- The six changes, up to the first that fails. -/
def changeBasicInfo : Bool × Directory :=
  let name := accountName payload
  let description := db.accountChangeDescription env.sql name (payload.asString "description" "")
  let givenName := Directory.andThen description fun db =>
    db.accountChangeGivenName env.sql name (payload.asString "givenName" "")
  let lastName := Directory.andThen givenName fun db =>
    db.accountChangeLastName env.sql name (payload.asString "lastName" "")
  let email := Directory.andThen lastName fun db => db.accountChangeEmail env.sql name (payload.asString "email" "")
  let extraData := Directory.andThen email fun db =>
    db.accountChangeExtraData env.sql name (payload.asString "extraData" "")
  Directory.andThen extraData fun db => db.accountChangeAttribs env.sql name (accountAttribs payload)

def accountChangeBasicInfo : Answer := retCode (changeBasicInfo env db payload)

def accountChangeDescription : Answer :=
  retCode (db.accountChangeDescription env.sql (accountName payload) (payload.asString "description" ""))

def accountChangeGivenName : Answer :=
  retCode (db.accountChangeGivenName env.sql (accountName payload) (payload.asString "givenName" ""))

def accountChangeLastName : Answer :=
  retCode (db.accountChangeLastName env.sql (accountName payload) (payload.asString "lastName" ""))

def accountChangeEmail : Answer :=
  retCode (db.accountChangeEmail env.sql (accountName payload) (payload.asString "email" ""))

def accountChangeExtraData : Answer :=
  retCode (db.accountChangeExtraData env.sql (accountName payload) (payload.asString "extraData" ""))

def accountChangeExpiration : Answer :=
  retCode (db.accountChangeExpiration env.sql (accountName payload) (toTime (payload.asUInt64 "expiration" 0)))

/-- `Json::Value::asString`, which throws for arrays and objects. -/
def itemAsString : Json → Option String
  | .null => some ""
  | .bool value => some (if value then "true" else "false")
  | .number value => some (env.valueToString value)
  | .string value => some value
  | _ => none

def accountChangeGroupSet : Option Answer := do
  let groups ← payload.member "groups"
  match groups with
  | .array items =>
    let groupSet ← items.mapM (itemAsString env)
    return retCode (db.accountChangeGroupSet (accountName payload) env.sql (fun _ => env.sql) (.ofList groupSet))
  | _ => return refused db

def isAccountDisabled : Json := .object [("disabled", .bool (db.isAccountDisabled (accountName payload)))]

def isAccountConfirmed : Json := .object [("confirmed", .bool (db.isAccountConfirmed (accountName payload)))]

def isAccountSuperUser : Json := .object [("superuser", .bool (db.isAccountSuperUser (accountName payload)))]

def accountDescription : Json := .object [("description", .string (db.accountDescription (accountName payload)))]

def accountGivenName : Json := .object [("givenName", .string (db.accountGivenName (accountName payload)))]

def accountLastName : Json := .object [("lastName", .string (db.accountLastName (accountName payload)))]

def accountEmail : Json := .object [("email", .string (db.accountEmail (accountName payload)))]

def accountExtraData : Json := .object [("extraData", .string (db.accountExtraData (accountName payload)))]

def accountLastLogin : Json := .object [("lastLogin", .number (db.accountLastLogin (accountName payload)))]

def accountExpirationDate : Json :=
  .object [("expirationDate", .number (db.accountExpirationDate (accountName payload)))]

def isAccountExpired : Json :=
  .object [("isAccountExpired", .bool (db.isAccountExpired (accountName payload) env.now))]

/-- The answer is given under the name of another question. -/
def accountValidateAttribute : Json :=
  .object [("isAccountExpired", .bool (db.accountValidateAttribute (accountName payload) (attrib payload)))]

def accountsList : Json := .object [("accountsList", stringListToValue db.accountsList)]

def accountsBasicInfoSearch : Json :=
  .ofItems ((db.accountsBasicInfoSearch env.likes env.now (payload.asString "searchWords" "")
      (payload.asUInt64 "limit" 0) (payload.asUInt64 "offset" 0)).map fun strVal =>
    .object [("lastName", .string strVal.sLastName), ("givenName", .string strVal.sGivenName),
      ("email", .string strVal.sEmail), ("description", .string strVal.sDescription),
      ("accountName", .string strVal.sAccountName), ("superuser", .bool strVal.superuser),
      ("expired", .bool strVal.expired), ("enabled", .bool strVal.enabled), ("confirmed", .bool strVal.confirmed)])

def accountGroups : Json := .object [("accountGroups", stringListToValue (db.accountGroups (accountName payload)))]

def accountDirectAttribs : Json :=
  .object [("accountDirectAttribs", attribListToValue db (db.accountDirectAttribs (accountName payload)))]

def accountUsableAttribs : Json :=
  .object [("accountUsableAttribs", attribListToValue db (db.accountUsableAttribs (accountName payload)))]

/-- There is nothing in the answer. -/
def resetBadAttempts : Answer :=
  (.null, db.resetBadAttempts env.sql (accountName payload) (UInt32.ofNat (payload.asUInt "passIndex" 0)))

/-- The public part of a secret, of which nothing is known where there is none. -/
def secretPublicData (passIndex : PassIndex) : List (String × Json) :=
  let flag (value : Bool) : Json := .string (if value then "1" else "0")
  let row := if db.accountExist (accountName payload) then db.accountSecrets.get (accountName payload, passIndex) else none
  let requiredAtLogin := (db.secretsIndexs.get passIndex).any SecretIndex.loginRequired
  match row.map SecretStore.readSecret with
  | some secret =>
    [("VERSION", .string "1"), ("PMODE", .string (toString secret.passwordFunction.code)),
      ("SALT", .string (Encoders.toHex secret.ssalt)), ("EXPIRATION", .string (toString secret.expiration)),
      ("FORCE_EXPIRATION", flag secret.forceExpiration), ("BAD_ATTEMPTS", .string (toString secret.badAttempts)),
      ("DESCRIPTION", .string (((db.secretsIndexs.get passIndex).map SecretIndex.indexDescription).getD "")),
      ("REQUIRED_AT_LOGIN", flag requiredAtLogin),
      ("LOCKED", flag (decide ((secret.badAttempts + 1) % 2 ^ 32 ≥ env.bAuthPolicyMaxTries))), ("NUL", flag false)]
  | none =>
    [("VERSION", .string "1"), ("PMODE", .string (toString PasswordFunction.notFound.code)),
      ("SALT", .string (Encoders.toHex [0, 0, 0, 0])), ("EXPIRATION", .string "0"), ("FORCE_EXPIRATION", flag false),
      ("BAD_ATTEMPTS", .string "0"), ("DESCRIPTION", .string ""), ("REQUIRED_AT_LOGIN", flag false),
      ("LOCKED", flag false), ("NUL", flag true)]

/-- One member for each index that a login requires or the account uses. -/
def getAccountAllSecretsPublicData : Json :=
  let requiredForLogin := (db.secretsIndexs.select fun _ index => index.loginRequired).map Prod.fst
  let usedByAccount := (db.accountSecrets.select fun key _ => key.1 = accountName payload).map fun row => row.1.2
  match (requiredForLogin ++ usedByAccount).dedup.map fun passIndex =>
      (toString passIndex, Json.object (secretPublicData env db payload passIndex)) with
  | [] => .null
  | members => .object members

/-! ## Attributes -/

def attribAdd : Answer :=
  if appName payload = env.dirAppName then refused db
  else retCode (db.attribAdd env.sql (attrib payload) (payload.asString "description" ""))

def attribRemove : Answer :=
  if appName payload = env.dirAppName then refused db else retCode (db.attribRemove env.sql (attrib payload))

def attribGroupAdd : Answer := retCode (db.attribGroupAdd env.sql (attrib payload) (groupName payload))

def attribGroupRemove : Answer := retCode (db.attribGroupRemove env.sql (attrib payload) (groupName payload))

def attribAccountAdd : Answer := retCode (db.attribAccountAdd env.sql (attrib payload) (accountName payload))

def attribAccountRemove : Answer := retCode (db.attribAccountRemove env.sql (attrib payload) (accountName payload))

/-- The call is that of `attribAccountRemove`, with the description in the place of the account. -/
def attribChangeDescription : Answer :=
  if appName payload = env.dirAppName then refused db
  else retCode (db.attribAccountRemove env.sql (attrib payload) (payload.asString "attribDescription" ""))

def attribDescription : Json := .object [("description", .string (db.attribDescription (attrib payload)))]

def attribsList : Json := .object [("attribsList", attribListToValue db (db.attribsList (appName payload)))]

def attribGroups : Json := .object [("attribGroups", stringListToValue (db.attribGroups (attrib payload)))]

def attribAccounts : Json := .object [("attribAccounts", stringListToValue (db.attribAccounts (attrib payload)))]

def attribsBasicInfoSearch : Json :=
  .ofItems ((db.attribsBasicInfoSearch env.likes (appName payload) (payload.asString "searchWords" "")
      (payload.asUInt64 "limit" 0) (payload.asUInt64 "offset" 0)).map fun strVal =>
    .object [("attribName", .string strVal.sAttributeName), ("description", .string strVal.sDescription)])

/-- The attributes of an application that a group does not have. -/
def iAttribsLeftListForGroup (appName groupName : String) : OrderedSet Auth.ApplicationAttrib :=
  (db.groupAttribs groupName).elements.foldl OrderedSet.erase (db.attribsList appName)

def attribsLeftListForGroup : Json :=
  .object [("attribsLeft", attribListToValue db (iAttribsLeftListForGroup db (appName payload) (groupName payload)))]

/-! ## Applications -/

def applicationAdd : Answer :=
  retCode (db.applicationAdd env.sql (appName payload) env.toBase64Obf (payload.asString "description" "")
    (payload.asString "appKey" "") env.authUser)

def applicationRemove : Answer :=
  if appName payload = env.dirAppName then refused db else retCode (db.applicationRemove env.sql (appName payload))

def applicationExist : Answer := retCode (db.applicationExist (appName payload), db)

def applicationDescription : Json := .object [("description", .string (db.applicationDescription (appName payload)))]

def applicationChangeDescription : Answer :=
  retCode (db.applicationChangeDescription env.sql (appName payload) (payload.asString "description" ""))

def applicationChangeKey : Answer :=
  retCode (db.applicationChangeKey env.sql (appName payload) env.toBase64Obf (payload.asString "appKey" ""))

def applicationList : Json := .object [("applications", stringListToValue db.applicationList)]

def applicationValidateOwner : Answer := retCode (db.applicationValidateOwner (appName payload) (accountName payload), db)

def applicationValidateAccount : Answer :=
  retCode (db.applicationValidateAccount (appName payload) (accountName payload), db)

def applicationOwners : Json :=
  .object [("owners", stringListToValue (db.applicationOwners (payload.asString "applicationName" "")))]

def applicationAccounts : Json :=
  .object [("accounts", stringListToValue (db.applicationAccounts (payload.asString "applicationName" "")))]

def accountApplications : Json :=
  .object [("applications", stringListToValue (db.accountApplications (accountName payload)))]

def applicationAccountAdd : Answer := retCode (db.applicationAccountAdd env.sql (appName payload) (accountName payload))

def applicationAccountRemove : Answer :=
  retCode (db.applicationAccountRemove env.sql (appName payload) (accountName payload))

def applicationOwnerAdd : Answer := retCode (db.applicationOwnerAdd env.sql (appName payload) (accountName payload))

def applicationOwnerRemove : Answer := retCode (db.applicationOwnerRemove env.sql (appName payload) (accountName payload))

def applicationsBasicInfoSearch : Json :=
  .ofItems ((db.applicationsBasicInfoSearch env.likes (payload.asString "searchWords" "")
      (payload.asUInt64 "limit" 0) (payload.asUInt64 "offset" 0)).map fun strVal =>
    .object [("appCreator", .string strVal.sAppCreator), ("appName", .string strVal.sApplicationName),
      ("description", .string strVal.sDescription)])

def applicationBasicInfo : Json :=
  .object ([("description", Json.string (db.applicationDescription (appName payload)))] ++
    Json.field "attribs" ((db.attribsList (appName payload)).elements.map fun attrib =>
      .object [("name", .string attrib.attribName), ("description", .string (db.attribDescription attrib))]) ++
    Json.field "accounts" ((db.applicationAccounts (appName payload)).elements.map fun acct =>
      .object [("name", .string acct), ("description", .string (db.accountDescription acct)),
        ("givenName", .string (db.accountGivenName acct)), ("lastName", .string (db.accountLastName acct))]))

/-! ## Groups -/

def groupAdd : Answer := retCode (db.groupAdd env.sql (groupName payload) (payload.asString "groupDescription" ""))

def groupRemove : Answer := retCode (db.groupRemove env.sql (groupName payload))

def groupExist : Answer := retCode (db.groupExist (groupName payload), db)

def groupAccountAdd : Answer := retCode (db.groupAccountAdd env.sql (groupName payload) (accountName payload))

def groupAccountRemove : Answer := retCode (db.groupAccountRemove env.sql (groupName payload) (accountName payload))

def groupChangeDescription : Answer :=
  retCode (db.groupChangeDescription env.sql (groupName payload) (payload.asString "groupDescription" ""))

def groupValidateAttribute : Answer := retCode (db.groupValidateAttribute (groupName payload) (attrib payload), db)

def groupDescription : Json := .object [("description", .string (db.groupDescription (groupName payload)))]

def groupsList : Json := .object [("groupsList", stringListToValue db.groupsList)]

def groupAttribs : Json := .object [("groupAttribs", attribListToValue db (db.groupAttribs (groupName payload)))]

def groupAccounts : Json := .object [("groupAccounts", stringListToValue (db.groupAccounts (groupName payload)))]

def groupsBasicInfoSearch : Json :=
  .ofItems ((db.groupsBasicInfoSearch env.likes (payload.asString "searchWords" "")
      (payload.asUInt64 "limit" 0) (payload.asUInt64 "offset" 0)).map fun strVal =>
    .object [("description", .string strVal.sDescription), ("groupName", .string strVal.sGroupName)])

/-! ## Reports -/

def named (name description : String) : List (String × Json) :=
  [("name", .string name), ("description", .string description)]

def attribItem (attrib : Auth.ApplicationAttrib) : Json :=
  .object (named attrib.attribName (db.attribDescription attrib))

/-- The entry of an application of the account; the last list is once more that of the direct attributes. -/
def accountApplicationItem (directAttribs : OrderedSet Auth.ApplicationAttrib) (applicationName : String) : Json :=
  let own := directAttribs.elements.filter fun directAttrib => directAttrib.appName = applicationName
  let left := (db.attribsList applicationName).elements.filter fun attrib => attrib ∉ directAttribs
  .object (named applicationName (db.applicationDescription applicationName) ++
    Json.field "directAttribs" (own.map (attribItem db)) ++
    Json.field "directAttribsLeft" (left.map (attribItem db)) ++
    Json.field "usableAttribs" (own.map (attribItem db)))

def accountBasicInfo : Json :=
  let name := accountName payload
  let attribs := db.accountAttribs name
  let groups := db.accountGroups name
  let directAttribs := db.accountDirectAttribs name
  let applications := db.accountApplications name
  .object ([("givenName", Json.string (db.accountGivenName name)), ("lastName", .string (db.accountLastName name)),
      ("description", .string (db.accountDescription name)), ("email", .string (db.accountEmail name)),
      ("extraData", .string (db.accountExtraData name)), ("enabled", .bool attribs.enabled),
      ("confirmed", .bool attribs.confirmed), ("superuser", .bool attribs.superuser)] ++
    Json.field "groups" (groups.elements.map fun groupName => .object (named groupName (db.groupDescription groupName))) ++
    Json.field "groupsLeft" ((db.groupsList.elements.filter fun groupName => groupName ∉ groups).map fun groupName =>
      .object (named groupName (db.groupDescription groupName))) ++
    Json.field "applications" (applications.elements.map (accountApplicationItem db directAttribs)) ++
    Json.field "applicationsLeft"
      ((db.applicationList.elements.filter fun applicationName => applicationName ∉ applications).map
        fun applicationName => .object (named applicationName (db.applicationDescription applicationName))))

/-- The entry of an application, made at the first attribute of it; each of its attributes is listed under the
name of that first one. -/
def groupApplicationItem (directAttribs : OrderedSet Auth.ApplicationAttrib) (attrib : Auth.ApplicationAttrib) : Json :=
  let own := directAttribs.elements.filter fun attrib2 => attrib.appName = attrib2.appName
  let left := (db.attribsList attrib.appName).elements.filter fun attrib2 => attrib2 ∉ directAttribs
  .object (named attrib.appName (db.applicationDescription attrib.appName) ++
    Json.field "attribs" (own.map fun _ => attribItem db attrib) ++
    Json.field "attribsLeft" (left.map (attribItem db)))

/-- The attributes that open the entry of their application. -/
def openingAttribs : (applications : List String) → List Auth.ApplicationAttrib → List Auth.ApplicationAttrib
  | _, [] => []
  | applications, attrib :: rest =>
    if attrib.appName ∈ applications then openingAttribs applications rest
    else attrib :: openingAttribs (attrib.appName :: applications) rest

def groupBasicInfo : Json :=
  let name := groupName payload
  let directAttribs := db.groupAttribs name
  .object ([("description", Json.string (db.groupDescription name))] ++
    Json.field "accounts" ((db.groupAccounts name).elements.map fun accountName =>
      .object (named accountName (db.accountDescription accountName) ++
        [("lastName", .string (db.accountLastName accountName)), ("givenName", .string (db.accountGivenName accountName))])) ++
    Json.field "applications" ((openingAttribs [] directAttribs.elements).map (groupApplicationItem db directAttribs)) ++
    Json.field "leftApplicationsList"
      ((db.applicationList.elements.filter fun appName => !(iAttribsLeftListForGroup db appName name).elements.isEmpty).map
        fun appName => .object (named appName (db.applicationDescription appName))))

end

end Mantids.RPC.FullAuth
