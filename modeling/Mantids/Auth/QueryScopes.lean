import Mantids.Auth.DirectoryObjects
import Mantids.Auth.ObjectSearch
import Mantids.Library.LockScopes

/-! The operations of `Manager_DB`, its own and those that it inherits, as the statements that they send to their
connector, whose lock each query object holds as long as it lives (`query.cpp`, `sqlconnector.cpp`). -/

set_option autoImplicit false

namespace Mantids.Auth.QueryScopes

open Library Library.LockScopes Library.LockScopes.Program

/-! ## Statements -/

section
variable (maxQueryLockMilliseconds : UInt64) {α β : Type}

/-- `qSelect`, with what its query object is alive for. Zero milliseconds are a wait without an end. -/
def qSelect (rows : Directory → β) (alive : Option β → Program Directory α) : Program Directory α :=
  .scope (maxQueryLockMilliseconds = 0) (fun db => (rows db, db)) alive

/-- `SQLConnector::query`, whose query object does not outlive it. -/
def query (change : Directory → Option Directory) : Program Directory Bool :=
  .scope (maxQueryLockMilliseconds = 0) (fun db => ((change db).isSome, (change db).getD db))
    fun done => pure (done.getD false)

/-- A SELECT whose rows are all that a function is about. -/
def reads (rows : Directory → α) (nothing : α) : Program Directory α :=
  qSelect maxQueryLockMilliseconds rows fun found => pure (found.getD nothing)

/-- Statements one after another, up to the first that is refused. -/
def queries : List (Directory → Option Directory) → Program Directory Bool
  | [] => pure true
  | change :: rest => do if ← query maxQueryLockMilliseconds change then queries rest else pure false

variable {allowed : (Directory → Directory) → Prop}

theorem sequential_query {change : Directory → Option Directory} (allows : allowed fun db => (change db).getD db) :
    Sequential (maxQueryLockMilliseconds = 0) allowed (query maxQueryLockMilliseconds change) :=
  .scope _ allows

theorem sequential_reads (rows : Directory → α) (nothing : α) (allows : allowed fun db => db) :
    Sequential (maxQueryLockMilliseconds = 0) allowed (reads maxQueryLockMilliseconds rows nothing) :=
  @Sequential.scope Directory _ _ α α (fun db => (rows db, db)) (fun found => found.getD nothing) allows

theorem sequential_queries {statements : List (Directory → Option Directory)}
    (allows : ∀ change ∈ statements, allowed fun db => (change db).getD db) :
    Sequential (maxQueryLockMilliseconds = 0) allowed (queries maxQueryLockMilliseconds statements) := by
  induction statements with
  | nil => exact .pure true
  | cons change rest ih =>
    have later := ih fun other member => allows other (List.mem_cons_of_mem _ member)
    exact (sequential_query _ (allows change List.mem_cons_self)).bind fun _ => later.ite (.pure false)

end

/-! ## Statements that the tables of the accounts do not have -/

def insertSecretIndex (index : PassIndex) (indexDescription : String) (loginRequired : Bool) (db : Directory) :
    Option Directory :=
  (db.secretsIndexs.insertRow index ⟨indexDescription, loginRequired⟩).map fun secretsIndexs =>
    { db with secretsIndexs }

def updateSecretIndex (index : PassIndex) (indexDescription : String) (loginRequired : Bool) (db : Directory) :
    Option Directory :=
  some { db with secretsIndexs := db.secretsIndexs.updateRow index fun _ => ⟨indexDescription, loginRequired⟩ }

def deleteSecretIndex (index : PassIndex) (db : Directory) : Option Directory :=
  some { db with
    secretsIndexs := db.secretsIndexs.erase index
    accountSecrets := db.accountSecrets.deleteWhere fun key _ => key.2 = index }

/-- The table of the logins refers to the account and to the index. -/
def insertLogin (userName : String) (index : PassIndex) (db : Directory) : Option Directory :=
  if (db.accounts.get userName).isSome ∧ (db.secretsIndexs.get index).isSome then some db else none

/-- A null stays null. -/
def incremented : Value → Value
  | .uint32 value => .uint32 (value + 1)
  | value => value

def withBadAttempts (change : Value → Value) (row : SecretRow) : SecretRow := fun column =>
  if column = .badAttempts then change (row column) else row column

def confirmed (userName : String) (db : Directory) : Directory :=
  { db with accounts := db.accounts.updateRow userName fun row => { row with confirmed := true } }

/-! ## What the manager calls of itself -/

/-- What is told of a secret to somebody who is not authenticated. -/
structure SecretPublicData where
  passwordFunction : PasswordFunction
  ssalt : List UInt8
  expiration : Time
  forceExpiration : Bool
  badAttempts : Nat
  description : String
  requiredAtLogin : Bool
  locked : Bool
  nul : Bool

/-- The default constructor. -/
def SecretPublicData.none : SecretPublicData := ⟨.notFound, [0, 0, 0, 0], 0, false, 0, "", false, false, true⟩

def getBasicData (secret : Secret) : SecretPublicData where
  passwordFunction := secret.passwordFunction
  ssalt := secret.ssalt
  expiration := secret.expiration
  forceExpiration := secret.forceExpiration
  badAttempts := secret.badAttempts
  description := ""
  requiredAtLogin := false
  locked := false
  nul := false

/-- A set of indexes, in its order. -/
def indexSet (indexes : List PassIndex) : List PassIndex := indexes.dedup.mergeSort fun i j => i ≤ j

def usedIndexes (sAccountName : String) (db : Directory) : List PassIndex :=
  indexSet ((db.accountSecrets.entries.filter fun row => row.1.1 = sAccountName).map fun row => row.1.2)

def requiredIndexes (db : Directory) : List PassIndex :=
  indexSet ((db.secretsIndexs.entries.filter fun row => row.2.loginRequired).map fun row => row.1)

def indexDescription (passIndex : PassIndex) (db : Directory) : String :=
  ((db.secretsIndexs.get passIndex).map SecretIndex.indexDescription).getD ""

/-- The arguments of `accountAdd`. -/
structure NewAccount where
  sAccountName : String
  secretData : Secret
  accountDetails : AccountDetails
  expirationDate : Time
  accountAttribs : AccountAttribs
  sCreatorAccountName : String

def NewAccount.row (new : NewAccount) (now : Time) : AccountRow where
  givenName := new.accountDetails.sGivenName
  lastName := new.accountDetails.sLastName
  email := new.accountDetails.sEmail
  description := new.accountDetails.sDescription
  extraData := new.accountDetails.sExtraData
  superuser := new.accountAttribs.superuser
  enabled := new.accountAttribs.enabled
  expiration := new.expirationDate
  confirmed := new.accountAttribs.confirmed
  creator := if new.sCreatorAccountName.isEmpty then none else some new.accountDetails.sExtraData
  lastLogin := now

/-- What the operations take from elsewhere: the clock, random texts, the codec of the keys, the pattern matching of
the database, the hash functions, and the policy of the logins. -/
structure Surroundings where
  now : Time
  confirmationToken : String
  randomPassword : String
  toBase64Obf : String → String
  fromBase64Obf : String → String
  likes : (pattern text : String) → Bool
  crypto : Crypto
  policy : Policy

def NewAccount.statements (new : NewAccount) (env : Surroundings) : List (Directory → Option Directory) :=
  [Directory.insertAccount new.sAccountName (new.row env.now),
    Directory.insertActivationToken new.sAccountName env.confirmationToken,
    Directory.insertSecret new.sAccountName 0 new.secretData]

section
variable (env : Surroundings) (ms : UInt64) (sAccountName : String) (passIndex : PassIndex)

def passIndexesUsedByAccount : Program Directory (List PassIndex) := reads ms (usedIndexes sAccountName) []

def passIndexesRequiredForLogin : Program Directory (List PassIndex) := reads ms requiredIndexes []

def passIndexDescription : Program Directory String := reads ms (indexDescription passIndex) ""

def accountAdd (new : NewAccount) : Program Directory Bool := queries ms (new.statements env)

def accountExist : Program Directory Bool := reads ms (fun db => db.accountExist sAccountName) false

/-- Its query object is gone when it returns. -/
def isThereAnotherSuperUser : Program Directory Bool :=
  reads ms (fun db => db.isThereAnotherSuperUser .working sAccountName) false

/-- A change of an account that is not made, where `needed` is set, without another superuser. -/
def guarded (needed : Bool) (change : Directory → Option Directory) : Program Directory Bool := do
  if needed then
    if ← isThereAnotherSuperUser ms sAccountName then query ms change else pure false
  else query ms change

def accountRemove : Program Directory Bool :=
  guarded ms sAccountName true fun db => some (db.deleteAccount sAccountName)

def accountDisable (disabled : Bool) : Program Directory Bool :=
  guarded ms sAccountName disabled (Directory.updateAccount sAccountName fun row => { row with enabled := !disabled })

/-- The query object of the SELECT lives until the function returns. -/
def accountConfirm (confirmationToken : String) : Program Directory Bool :=
  qSelect ms (fun db => db.accountActivationTokens.get sAccountName) fun found =>
    match found with
    | some (some token) =>
      if !token.isEmpty ∧ token = confirmationToken then query ms fun db => some (confirmed sAccountName db)
      else pure false
    | _ => pure false

def accountChangeSecret (passwordData : Secret) : Program Directory Bool := do
  -- the result of the DELETE is not looked at
  let _ ← query ms fun db => some (db.deleteSecret sAccountName passIndex)
  query ms (Directory.insertSecret sAccountName passIndex passwordData)

def accountChangeAttribs (accountAttribs : AccountAttribs) : Program Directory Bool :=
  guarded ms sAccountName (!accountAttribs.confirmed || !accountAttribs.enabled || !accountAttribs.superuser)
    (Directory.updateAccount sAccountName fun row =>
      { row with
        enabled := accountAttribs.enabled
        confirmed := accountAttribs.confirmed
        superuser := accountAttribs.superuser })

def isAccountDisabled : Program Directory Bool := reads ms (fun db => db.isAccountDisabled sAccountName) true

def isAccountConfirmed : Program Directory Bool := reads ms (fun db => db.isAccountConfirmed sAccountName) false

def accountExpirationDate : Program Directory Time := reads ms (fun db => db.accountExpirationDate sAccountName) 1

def accountLastLogin : Program Directory Time := reads ms (fun db => db.accountLastLogin sAccountName) 1

def updateLastLogin (uPassIdx : PassIndex) : Program Directory Unit := do
  let _ ← query ms (Directory.updateAccount sAccountName fun row => { row with lastLogin := env.now })
  let _ ← query ms (insertLogin sAccountName uPassIdx)
  pure ()

def resetBadAttempts : Program Directory Unit := do
  let _ ← query ms (Directory.updateSecret sAccountName passIndex (withBadAttempts fun _ => .uint32 0))
  pure ()

def incrementBadAttempts : Program Directory Unit := do
  let _ ← query ms (Directory.updateSecret sAccountName passIndex (withBadAttempts incremented))
  pure ()

def accountGroups : Program Directory (OrderedSet String) := reads ms (fun db => db.accountGroups sAccountName) .empty

def accountDirectAttribs : Program Directory (OrderedSet ApplicationAttrib) :=
  reads ms (fun db => db.accountDirectAttribs sAccountName) .empty

def accountValidateDirectAttribute (applicationAttrib : ApplicationAttrib) : Program Directory Bool :=
  reads ms (fun db => db.accountValidateDirectAttribute sAccountName applicationAttrib) false

def applicationValidateAccount (appName : String) : Program Directory Bool :=
  reads ms (fun db => db.applicationValidateAccount appName sAccountName) false

def groupAttribs (sGroupName : String) : Program Directory (OrderedSet ApplicationAttrib) :=
  reads ms (fun db => db.groupAttribs sGroupName) .empty

def groupValidateAttribute (sGroupName : String) (attrib : ApplicationAttrib) : Program Directory Bool :=
  reads ms (fun db => db.groupValidateAttribute sGroupName attrib) false

/-- The secret, whether the account was found and whether the index was. -/
def retrieveSecret : Program Directory (Secret × Bool × Bool) := do
  if ← accountExist ms sAccountName then
    reads ms
      (fun db =>
        match db.accountSecrets.get (sAccountName, passIndex) with
        | some row => (SecretStore.readSecret row, true, true)
        | none => (.none, true, false))
      (.none, true, false)
  else pure (.none, false, false)

end

section
variable (env : Surroundings) (ms : UInt64) (sAccountName : String) (passIndex : PassIndex)

def initAccounts : Program Directory Bool :=
  accountAdd env ms
    { sAccountName := "admin"
      secretData := { Secret.none with forceExpiration := true, hash := env.randomPassword }
      accountDetails := ⟨"", "", "", "Autogenerated Superuser Account", ""⟩
      expirationDate := 0
      accountAttribs := ⟨true, true, true⟩
      sCreatorAccountName := "" }

def isAccountExpired : Program Directory Bool := do
  let tAccountExpirationDate ← accountExpirationDate ms sAccountName
  pure (tAccountExpirationDate != 0 && decide (tAccountExpirationDate < env.now))

/-- The index `0xFFFFFFFF` alone when no index is required for a login at all. -/
def accountPassIndexesUsedForLogin : Program Directory (List (PassIndex × String)) := do
  let requiredForLogin ← passIndexesRequiredForLogin ms
  if requiredForLogin.isEmpty then pure [(0xFFFFFFFF, "")]
  else
    let used ← passIndexesUsedByAccount ms sAccountName
    used.foldlM
      (fun r i =>
        if requiredForLogin.contains i then (fun description => r ++ [(i, description)]) <$> passIndexDescription ms i
        else pure r)
      []

def accountSecretPublicData : Program Directory SecretPublicData := do
  let (pd, bAccountFound, bIndexFound) ← retrieveSecret ms sAccountName passIndex
  if bAccountFound ∧ bIndexFound then
    let description ← passIndexDescription ms passIndex
    let forlogin ← passIndexesRequiredForLogin ms
    pure { getBasicData pd with
      description
      requiredAtLogin := forlogin.contains passIndex
      locked := (pd.badAttempts + 1) % 2 ^ 32 ≥ env.policy.bAuthPolicyMaxTries.toNat }
  else pure .none

def getAccountAllSecretsPublicData : Program Directory (List (PassIndex × SecretPublicData)) := do
  let requiredForLogin ← passIndexesRequiredForLogin ms
  let usedByAccount ← passIndexesUsedByAccount ms sAccountName
  (indexSet (requiredForLogin ++ usedByAccount)).foldlM
    (fun r idx => (fun data => r ++ [(idx, data)]) <$> accountSecretPublicData env ms sAccountName idx) []

/-- The direct ones and those of the groups. -/
def accountUsableAttribs : Program Directory (OrderedSet ApplicationAttrib) := do
  let direct ← accountDirectAttribs ms sAccountName
  let groups ← accountGroups ms sAccountName
  groups.elements.foldlM
    (fun x groupName => (fun attribs => x.insertAll attribs.elements) <$> groupAttribs ms groupName)
    (OrderedSet.empty.insertAll direct.elements)

def accountValidateAttribute (applicationAttrib : ApplicationAttrib) : Program Directory Bool := do
  if ← accountValidateDirectAttribute ms sAccountName applicationAttrib then pure true
  else
    let groups ← accountGroups ms sAccountName
    groups.elements.anyM fun groupName => groupValidateAttribute ms groupName applicationAttrib

/-- The part of `authenticate` under the read lock: the answer so far, the attempts that were counted, none for a call
that is over, and the indexes that a login uses. -/
def judge (call : Call) : Program Directory (Reason × Option Nat × List (PassIndex × String)) := do
  if ← applicationValidateAccount ms call.sAccountName call.appName then
    let (stored, accountFound, indexFound) ← retrieveSecret ms call.sAccountName call.passIndex
    if accountFound = false then pure (.badAccount, some stored.badAttempts, [])
    else if indexFound = false then pure (.passwordIndexNotFound, some stored.badAttempts, [])
    else
      let lastLogin ← accountLastLogin ms call.sAccountName
      let confirmed ← isAccountConfirmed ms call.sAccountName
      if confirmed = false then pure (.unconfirmedAccount, none, [])
      else
        let disabled ← isAccountDisabled ms call.sAccountName
        if disabled then pure (.disabledAccount, none, [])
        else
          let expired ← isAccountExpired env ms call.sAccountName
          if expired then pure (.expiredAccount, none, [])
          else if lastLogin + env.policy.bAuthPolicyAbandonedAccountExpirationSeconds < env.now then
            pure (.expiredAccount, none, [])
          else
            let ret :=
              validateStoredSecret env.crypto env.now stored call.incomingPassword call.challengeSalt call.authMode
            if isPasswordAuthenticated ret ∧ call.wantsPassIndexes ∧ call.passIndex = 0 then
              let indexes ← accountPassIndexesUsedForLogin ms call.sAccountName
              if indexes.any fun i => i.1 = 0xFFFFFFFF then pure (.internalError, none, indexes)
              else pure (ret, some stored.badAttempts, indexes)
            else pure (ret, some stored.badAttempts, [])
  else pure (.badAccount, none, [])

/-- What a call that is not over changes by its answer. -/
def registerChange (call : Call) (ret : Reason) (attempts : Nat) : Program Directory Unit := do
  if isPasswordAuthenticated ret then
    updateLastLogin env ms call.sAccountName call.passIndex
    resetBadAttempts ms call.sAccountName call.passIndex
  else if (attempts + 1) % 2 ^ 32 ≥ env.policy.bAuthPolicyMaxTries.toNat then
    let _ ← accountDisable ms call.sAccountName true
    pure ()
  else incrementBadAttempts ms call.sAccountName call.passIndex

def authenticate (call : Call) : Program Directory (Reason × List (PassIndex × String)) := do
  let (ret, attempts, indexes) ← judge env ms call
  match attempts with
  | none => pure (ret, indexes)
  | some attempts => (fun _ => (ret, indexes)) <$> registerChange env ms call ret attempts

/-- An index that is not found is to be made by who knows the master password. -/
def accountChangeAuthenticatedSecret (call : Call) (newPasswordData : Secret) : Program Directory Bool := do
  let first ← authenticate env ms { call with wantsPassIndexes := false }
  let i ← (if first.1 = .passwordIndexNotFound then
      Prod.fst <$> authenticate env ms { call with wantsPassIndexes := false, passIndex := 0 }
    else pure first.1)
  if isPasswordAuthenticated i then accountChangeSecret ms call.sAccountName call.passIndex newPasswordData
  else pure false

end

/-! ## The operations -/

/-- What the operations return. -/
inductive Answer where
  | none
  | bool (value : Bool)
  | text (value : String)
  | time (value : Time)
  | attribs (value : AccountAttribs)
  | names (value : OrderedSet String)
  | applicationAttribs (value : OrderedSet ApplicationAttrib)
  | passIndexes (value : List PassIndex)
  | described (value : List (PassIndex × String))
  | secret (value : Secret × Bool × Bool)
  | publicData (value : SecretPublicData)
  | allPublicData (value : List (PassIndex × SecretPublicData))
  | reason (value : Reason × List (PassIndex × String))
  | accounts (value : List Directory.AccountSimpleDetails)
  | groups (value : List Directory.GroupSimpleDetails)
  | applications (value : List Directory.ApplicationSimpleDetails)
  | attributes (value : List Directory.AttributeSimpleDetails)

/-- The indexes of the secrets. -/
inductive PassIndexOperation where
  | passIndexesUsedByAccount (sAccountName : String)
  | passIndexesRequiredForLogin
  | passIndexAdd (passIndex : PassIndex) (description : String) (loginRequired : Bool)
  | passIndexModify (passIndex : PassIndex) (description : String) (loginRequired : Bool)
  | passIndexDelete (passIndex : PassIndex)
  | passIndexDescription (passIndex : PassIndex)
  | passIndexLoginRequired (passIndex : PassIndex)

/-- What changes an account. -/
inductive AccountOperation where
  | accountAdd (new : NewAccount)
  | accountRemove (sAccountName : String)
  | accountDisable (sAccountName : String) (disabled : Bool)
  | accountConfirm (sAccountName confirmationToken : String)
  | accountChangeSecret (sAccountName : String) (passwordData : Secret) (passIndex : PassIndex)
  | accountChangeDescription (sAccountName description : String)
  | accountChangeGivenName (sAccountName sGivenName : String)
  | accountChangeLastName (sAccountName sLastName : String)
  | accountChangeEmail (sAccountName email : String)
  | accountChangeExtraData (sAccountName extraData : String)
  | accountChangeExpiration (sAccountName : String) (expiration : Time)
  | accountChangeGroupSet (sAccountName : String) (groupSet : OrderedSet String)
  | accountChangeAttribs (sAccountName : String) (accountAttribs : AccountAttribs)
  | updateLastLogin (sAccountName : String) (uPassIdx : PassIndex)
  | resetBadAttempts (sAccountName : String) (passIndex : PassIndex)
  | incrementBadAttempts (sAccountName : String) (passIndex : PassIndex)

/-- What is asked about the accounts. -/
inductive AccountQuestion where
  | accountConfirmationToken (sAccountName : String)
  | accountExist (sAccountName : String)
  | accountAttribs (sAccountName : String)
  | isAccountDisabled (sAccountName : String)
  | isAccountConfirmed (sAccountName : String)
  | isAccountSuperUser (sAccountName : String)
  | accountGivenName (sAccountName : String)
  | accountLastName (sAccountName : String)
  | accountDescription (sAccountName : String)
  | accountEmail (sAccountName : String)
  | accountExtraData (sAccountName : String)
  | accountExpirationDate (sAccountName : String)
  | accountLastLogin (sAccountName : String)
  | accountsBasicInfoSearch (sSearchWords : String) (limit offset : Nat)
  | accountsList
  | accountGroups (sAccountName : String)
  | accountDirectAttribs (sAccountName : String)
  | superUserAccountExist

/-- The applications, their owners and their accounts. -/
inductive ApplicationOperation where
  | applicationAdd (appName applicationDescription sAppKey sOwnerAccountName : String)
  | applicationRemove (appName : String)
  | applicationExist (appName : String)
  | applicationDescription (appName : String)
  | applicationKey (appName : String)
  | applicationChangeKey (appName appKey : String)
  | applicationChangeDescription (appName applicationDescription : String)
  | applicationList
  | applicationValidateOwner (appName sAccountName : String)
  | applicationValidateAccount (appName sAccountName : String)
  | applicationOwners (appName : String)
  | applicationAccounts (appName : String)
  | accountApplications (sAccountName : String)
  | applicationAccountAdd (appName sAccountName : String)
  | applicationAccountRemove (appName sAccountName : String)
  | applicationOwnerAdd (appName sAccountName : String)
  | applicationOwnerRemove (appName sAccountName : String)
  | applicationsBasicInfoSearch (sSearchWords : String) (limit offset : Nat)

/-- The attributes. -/
inductive AttribOperation where
  | attribAdd (applicationAttrib : ApplicationAttrib) (sAttribDescription : String)
  | attribRemove (applicationAttrib : ApplicationAttrib)
  | attribExist (applicationAttrib : ApplicationAttrib)
  | attribGroupAdd (applicationAttrib : ApplicationAttrib) (sGroupName : String)
  | attribGroupRemove (applicationAttrib : ApplicationAttrib) (sGroupName : String)
  | attribAccountAdd (applicationAttrib : ApplicationAttrib) (sAccountName : String)
  | attribAccountRemove (applicationAttrib : ApplicationAttrib) (sAccountName : String)
  | attribChangeDescription (applicationAttrib : ApplicationAttrib) (attribDescription : String)
  | attribDescription (applicationAttrib : ApplicationAttrib)
  | attribsList (applicationName : String)
  | attribGroups (applicationAttrib : ApplicationAttrib)
  | attribAccounts (applicationAttrib : ApplicationAttrib)
  | attribsBasicInfoSearch (appName sSearchWords : String) (limit offset : Nat)

/-- The groups. -/
inductive GroupOperation where
  | groupAdd (groupName groupDescription : String)
  | groupRemove (groupName : String)
  | groupExist (groupName : String)
  | groupAccountAdd (sGroupName sAccountName : String)
  | groupAccountRemove (sGroupName sAccountName : String)
  | groupChangeDescription (groupName groupDescription : String)
  | groupValidateAttribute (sGroupName : String) (attrib : ApplicationAttrib)
  | groupDescription (sGroupName : String)
  | groupsList
  | groupAttribs (sGroupName : String)
  | groupAccounts (sGroupName : String)
  | groupsBasicInfoSearch (sSearchWords : String) (limit offset : Nat)

/-- What the manager inherits, and what serves it. -/
inductive ManagerOperation where
  | accountValidateDirectAttribute (sAccountName : String) (applicationAttrib : ApplicationAttrib)
  | retrieveSecret (sAccountName : String) (passIndex : PassIndex)
  | initAccounts
  | isAccountExpired (sAccountName : String)
  | accountPassIndexesUsedForLogin (sAccountName : String)
  | accountSecretPublicData (sAccountName : String) (passIndex : PassIndex)
  | getAccountAllSecretsPublicData (sAccountName : String)
  | accountUsableAttribs (sAccountName : String)
  | accountValidateAttribute (sAccountName : String) (applicationAttrib : ApplicationAttrib)
  | authenticate (call : Call)
  | accountChangeAuthenticatedSecret (call : Call) (newPasswordData : Secret)

/-- The methods that send statements. The statements of `initScheme` make the tables, and are left open. -/
inductive Operation where
  | initScheme (dbTableExist : Directory → Bool) (creates : List (Directory → Option Directory))
  | passIndex (op : PassIndexOperation)
  | account (op : AccountOperation)
  | asked (op : AccountQuestion)
  | application (op : ApplicationOperation)
  | attrib (op : AttribOperation)
  | group (op : GroupOperation)
  | manager (op : ManagerOperation)

section
variable (env : Surroundings) (ms : UInt64)

def changes (statements : List (Directory → Option Directory)) : Program Directory Answer :=
  .bool <$> queries ms statements

open Directory in
def PassIndexOperation.run : PassIndexOperation → Program Directory Answer
  | passIndexesUsedByAccount a => .passIndexes <$> QueryScopes.passIndexesUsedByAccount ms a
  | passIndexesRequiredForLogin => .passIndexes <$> QueryScopes.passIndexesRequiredForLogin ms
  | passIndexAdd passIndex description loginRequired =>
    changes ms [insertSecretIndex passIndex description loginRequired]
  | passIndexModify passIndex description loginRequired =>
    changes ms [updateSecretIndex passIndex description loginRequired]
  | passIndexDelete passIndex => changes ms [deleteSecretIndex passIndex]
  | passIndexDescription passIndex => .text <$> QueryScopes.passIndexDescription ms passIndex
  | passIndexLoginRequired passIndex =>
    .bool <$> reads ms (fun db => ((db.secretsIndexs.get passIndex).map SecretIndex.loginRequired).getD false) false

open Directory in
def AccountOperation.run : AccountOperation → Program Directory Answer
  | accountAdd new => .bool <$> QueryScopes.accountAdd env ms new
  | accountRemove a => .bool <$> QueryScopes.accountRemove ms a
  | accountDisable a disabled => .bool <$> QueryScopes.accountDisable ms a disabled
  | accountConfirm a confirmationToken => .bool <$> QueryScopes.accountConfirm ms a confirmationToken
  | accountChangeSecret a passwordData index => .bool <$> QueryScopes.accountChangeSecret ms a index passwordData
  | accountChangeDescription a description => changes ms [updateAccount a fun row => { row with description }]
  | accountChangeGivenName a givenName => changes ms [updateAccount a fun row => { row with givenName }]
  | accountChangeLastName a lastName => changes ms [updateAccount a fun row => { row with lastName }]
  | accountChangeEmail a email => changes ms [updateAccount a fun row => { row with email }]
  | accountChangeExtraData a extraData => changes ms [updateAccount a fun row => { row with extraData }]
  | accountChangeExpiration a expiration => changes ms [updateAccount a fun row => { row with expiration }]
  | accountChangeGroupSet a groupSet =>
    changes ms
      ((fun db => some (db.deleteGroupsOfAccount a)) :: groupSet.elements.map fun group => insertGroupAccount group a)
  | accountChangeAttribs a attribs => .bool <$> QueryScopes.accountChangeAttribs ms a attribs
  | updateLastLogin a uPassIdx => (fun _ => .none) <$> QueryScopes.updateLastLogin env ms a uPassIdx
  | resetBadAttempts a passIndex => (fun _ => .none) <$> QueryScopes.resetBadAttempts ms a passIndex
  | incrementBadAttempts a passIndex => (fun _ => .none) <$> QueryScopes.incrementBadAttempts ms a passIndex

open Directory in
def AccountQuestion.run : AccountQuestion → Program Directory Answer
  | accountConfirmationToken a => .text <$> reads ms (fun db => db.accountConfirmationToken a) ""
  | accountExist a => .bool <$> QueryScopes.accountExist ms a
  | accountAttribs a => .attribs <$> reads ms (fun db => db.accountAttribs a) ⟨false, false, false⟩
  | isAccountDisabled a => .bool <$> QueryScopes.isAccountDisabled ms a
  | isAccountConfirmed a => .bool <$> QueryScopes.isAccountConfirmed ms a
  | isAccountSuperUser a => .bool <$> reads ms (fun db => db.isAccountSuperUser a) false
  | accountGivenName a => .text <$> reads ms (fun db => db.accountGivenName a) ""
  | accountLastName a => .text <$> reads ms (fun db => db.accountLastName a) ""
  | accountDescription a => .text <$> reads ms (fun db => db.accountDescription a) ""
  | accountEmail a => .text <$> reads ms (fun db => db.accountEmail a) ""
  | accountExtraData a => .text <$> reads ms (fun db => db.accountExtraData a) ""
  | accountExpirationDate a => .time <$> QueryScopes.accountExpirationDate ms a
  | accountLastLogin a => .time <$> QueryScopes.accountLastLogin ms a
  | accountsBasicInfoSearch sSearchWords limit offset =>
    .accounts <$> reads ms (fun db => db.accountsBasicInfoSearch env.likes env.now sSearchWords limit offset) []
  | accountsList => .names <$> reads ms (fun db => db.accountsList) .empty
  | accountGroups a => .names <$> QueryScopes.accountGroups ms a
  | accountDirectAttribs a => .applicationAttribs <$> QueryScopes.accountDirectAttribs ms a
  | superUserAccountExist => .bool <$> reads ms (fun db => db.accounts.entries.any fun row => row.2.superuser) false

open Directory in
def ApplicationOperation.run : ApplicationOperation → Program Directory Answer
  | applicationAdd appName description sAppKey sOwnerAccountName =>
    changes ms [insertApplication appName ⟨sOwnerAccountName, description, env.toBase64Obf sAppKey⟩]
  | applicationRemove appName => changes ms [fun db => some (db.deleteApplications fun name => name = appName)]
  | applicationExist appName => .bool <$> reads ms (fun db => db.applicationExist appName) false
  | applicationDescription appName => .text <$> reads ms (fun db => db.applicationDescription appName) ""
  | applicationKey appName =>
    .text <$> reads ms (fun db => ((db.applications.get appName).elim "" fun row => env.fromBase64Obf row.appKey)) ""
  | applicationChangeKey appName appKey =>
    changes ms [updateApplication appName fun row => { row with appKey := env.toBase64Obf appKey }]
  | applicationChangeDescription appName description =>
    changes ms [updateApplication appName fun row => { row with appDescription := description }]
  | applicationList => .names <$> reads ms (fun db => db.applicationList) .empty
  | applicationValidateOwner appName a => .bool <$> reads ms (fun db => db.applicationValidateOwner appName a) false
  | applicationValidateAccount appName a => .bool <$> QueryScopes.applicationValidateAccount ms a appName
  | applicationOwners appName => .names <$> reads ms (fun db => db.applicationOwners appName) .empty
  | applicationAccounts appName => .names <$> reads ms (fun db => db.applicationAccounts appName) .empty
  | accountApplications a => .names <$> reads ms (fun db => db.accountApplications a) .empty
  | applicationAccountAdd appName a => changes ms [insertApplicationUser a appName]
  | applicationAccountRemove appName a =>
    changes ms [fun db => some { db with
      applicationUsers := db.applicationUsers.deleteWhere fun link _ => link.2 = appName ∧ link.1 = a }]
  | applicationOwnerAdd appName a => changes ms [insertApplicationManager a appName]
  | applicationOwnerRemove appName a =>
    changes ms [fun db => some { db with
      applicationManagers := db.applicationManagers.deleteWhere fun link _ => link.2 = appName ∧ link.1 = a }]
  | applicationsBasicInfoSearch sSearchWords limit offset =>
    .applications <$> reads ms (fun db => db.applicationsBasicInfoSearch env.likes sSearchWords limit offset) []

open Directory in
def AttribOperation.run : AttribOperation → Program Directory Answer
  | attribAdd attrib sAttribDescription => changes ms [insertAttrib attrib sAttribDescription]
  | attribRemove attrib => changes ms [fun db => some (db.deleteAttribs fun other => other = attrib)]
  | attribExist attrib => .bool <$> reads ms (fun db => db.attribExist attrib) false
  | attribGroupAdd attrib sGroupName => changes ms [insertAttribGroup attrib sGroupName]
  | attribGroupRemove attrib sGroupName =>
    changes ms [fun db => some { db with
      attribsGroups := db.attribsGroups.deleteWhere fun link _ => link.1 = attrib ∧ link.2 = sGroupName }]
  | attribAccountAdd attrib a => changes ms [insertAttribAccount attrib a]
  | attribAccountRemove attrib a =>
    changes ms [fun db => some { db with
      attribsAccounts := db.attribsAccounts.deleteWhere fun link _ => link.1 = attrib ∧ link.2 = a }]
  | attribChangeDescription attrib description => changes ms [updateAttrib attrib description]
  | attribDescription attrib => .text <$> reads ms (fun db => db.attribDescription attrib) ""
  | attribsList applicationName => .applicationAttribs <$> reads ms (fun db => db.attribsList applicationName) .empty
  | attribGroups attrib => .names <$> reads ms (fun db => db.attribGroups attrib) .empty
  | attribAccounts attrib => .names <$> reads ms (fun db => db.attribAccounts attrib) .empty
  | attribsBasicInfoSearch appName sSearchWords limit offset =>
    .attributes <$> reads ms (fun db => db.attribsBasicInfoSearch env.likes appName sSearchWords limit offset) []

open Directory in
def GroupOperation.run : GroupOperation → Program Directory Answer
  | groupAdd groupName description => changes ms [insertGroup groupName description]
  | groupRemove groupName => changes ms [fun db => some (db.deleteGroup groupName)]
  | groupExist groupName => .bool <$> reads ms (fun db => db.groupExist groupName) false
  | groupAccountAdd sGroupName a => changes ms [insertGroupAccount sGroupName a]
  | groupAccountRemove sGroupName a =>
    changes ms [fun db => some { db with
      groupsAccounts := db.groupsAccounts.deleteWhere fun link _ => link.1 = sGroupName ∧ link.2 = a }]
  | groupChangeDescription groupName description => changes ms [updateGroup groupName description]
  | groupValidateAttribute sGroupName attrib => .bool <$> QueryScopes.groupValidateAttribute ms sGroupName attrib
  | groupDescription sGroupName => .text <$> reads ms (fun db => db.groupDescription sGroupName) ""
  | groupsList => .names <$> reads ms (fun db => db.groupsList) .empty
  | groupAttribs sGroupName => .applicationAttribs <$> QueryScopes.groupAttribs ms sGroupName
  | groupAccounts sGroupName => .names <$> reads ms (fun db => db.groupAccounts sGroupName) .empty
  | groupsBasicInfoSearch sSearchWords limit offset =>
    .groups <$> reads ms (fun db => db.groupsBasicInfoSearch env.likes sSearchWords limit offset) []

open Directory in
def ManagerOperation.run : ManagerOperation → Program Directory Answer
  | accountValidateDirectAttribute a attrib => .bool <$> QueryScopes.accountValidateDirectAttribute ms a attrib
  | retrieveSecret a passIndex => .secret <$> QueryScopes.retrieveSecret ms a passIndex
  | initAccounts => .bool <$> QueryScopes.initAccounts env ms
  | isAccountExpired a => .bool <$> QueryScopes.isAccountExpired env ms a
  | accountPassIndexesUsedForLogin a => .described <$> QueryScopes.accountPassIndexesUsedForLogin ms a
  | accountSecretPublicData a passIndex => .publicData <$> QueryScopes.accountSecretPublicData env ms a passIndex
  | getAccountAllSecretsPublicData a => .allPublicData <$> QueryScopes.getAccountAllSecretsPublicData env ms a
  | accountUsableAttribs a => .applicationAttribs <$> QueryScopes.accountUsableAttribs ms a
  | accountValidateAttribute a attrib => .bool <$> QueryScopes.accountValidateAttribute ms a attrib
  | authenticate call => .reason <$> QueryScopes.authenticate env ms call
  | accountChangeAuthenticatedSecret call data =>
    .bool <$> QueryScopes.accountChangeAuthenticatedSecret env ms call data

def Operation.run : Operation → Program Directory Answer
  | initScheme dbTableExist creates => do
    if ← reads ms dbTableExist false then pure (.bool true) else changes ms creates
  | passIndex op => op.run ms
  | account op => op.run env ms
  | asked op => op.run env ms
  | application op => op.run env ms
  | attrib op => op.run env ms
  | group op => op.run env ms
  | manager op => op.run env ms

end

end Mantids.Auth.QueryScopes
