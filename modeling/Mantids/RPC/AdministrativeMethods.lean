import Mantids.Auth.AccountChanges
import Mantids.RPC.FullAuth

/-! The administrative methods against the manager's operations of the same names. -/

set_option autoImplicit false

namespace Mantids.RPC.FullAuth

open Library Auth

/-- The functions that are registered, each of them under its own name. -/
inductive Method where
  | accountAdd
  | accountExist
  | accountChangeSecret
  | accountRemove
  | accountDisable
  | accountConfirm
  | accountChangeBasicInfo
  | accountChangeDescription
  | accountChangeGivenName
  | accountChangeLastName
  | accountChangeEmail
  | accountChangeExtraData
  | accountChangeExpiration
  | accountChangeGroupSet
  | isAccountDisabled
  | isAccountConfirmed
  | isAccountSuperUser
  | accountGivenName
  | accountLastName
  | accountBasicInfo
  | accountDescription
  | accountEmail
  | accountExtraData
  | isAccountExpired
  | accountValidateAttribute
  | accountsList
  | accountsBasicInfoSearch
  | accountGroups
  | accountDirectAttribs
  | accountUsableAttribs
  | accountExpirationDate
  | accountLastLogin
  | resetBadAttempts
  | getAccountAllSecretsPublicData
  | attribAdd
  | attribRemove
  | attribGroupAdd
  | attribGroupRemove
  | attribAccountAdd
  | attribAccountRemove
  | attribChangeDescription
  | attribDescription
  | attribsList
  | attribGroups
  | attribAccounts
  | attribsBasicInfoSearch
  | attribsLeftListForGroup
  | applicationBasicInfo
  | applicationAdd
  | applicationRemove
  | applicationExist
  | applicationDescription
  | applicationChangeDescription
  | applicationChangeKey
  | applicationList
  | applicationValidateOwner
  | applicationValidateAccount
  | applicationOwners
  | applicationAccounts
  | accountApplications
  | applicationAccountAdd
  | applicationAccountRemove
  | applicationOwnerAdd
  | applicationOwnerRemove
  | applicationsBasicInfoSearch
  | groupAdd
  | groupRemove
  | groupExist
  | groupAccountAdd
  | groupAccountRemove
  | groupChangeDescription
  | groupValidateAttribute
  | groupDescription
  | groupsList
  | groupAttribs
  | groupAccounts
  | groupsBasicInfoSearch
  | groupBasicInfo

section
variable (env : Environment) (db : Directory) (payload : Json)

/-! ## The calls -/

def read (answer : Json) : Option Answer := some (answer, db)

/-- What a call answers and leaves; nothing where the library throws. -/
def Method.call : Method → Option Answer
  | accountAdd => some (FullAuth.accountAdd env db payload)
  | accountExist => some (FullAuth.accountExist db payload)
  | accountChangeSecret => FullAuth.accountChangeSecret env db payload
  | accountRemove => some (FullAuth.accountRemove env db payload)
  | accountDisable => some (FullAuth.accountDisable env db payload)
  | accountConfirm => some (FullAuth.accountConfirm env db payload)
  | accountChangeBasicInfo => some (FullAuth.accountChangeBasicInfo env db payload)
  | accountChangeDescription => some (FullAuth.accountChangeDescription env db payload)
  | accountChangeGivenName => some (FullAuth.accountChangeGivenName env db payload)
  | accountChangeLastName => some (FullAuth.accountChangeLastName env db payload)
  | accountChangeEmail => some (FullAuth.accountChangeEmail env db payload)
  | accountChangeExtraData => some (FullAuth.accountChangeExtraData env db payload)
  | accountChangeExpiration => some (FullAuth.accountChangeExpiration env db payload)
  | accountChangeGroupSet => FullAuth.accountChangeGroupSet env db payload
  | isAccountDisabled => read db (FullAuth.isAccountDisabled db payload)
  | isAccountConfirmed => read db (FullAuth.isAccountConfirmed db payload)
  | isAccountSuperUser => read db (FullAuth.isAccountSuperUser db payload)
  | accountGivenName => read db (FullAuth.accountGivenName db payload)
  | accountLastName => read db (FullAuth.accountLastName db payload)
  | accountBasicInfo => read db (FullAuth.accountBasicInfo db payload)
  | accountDescription => read db (FullAuth.accountDescription db payload)
  | accountEmail => read db (FullAuth.accountEmail db payload)
  | accountExtraData => read db (FullAuth.accountExtraData db payload)
  | isAccountExpired => read db (FullAuth.isAccountExpired env db payload)
  | accountValidateAttribute => read db (FullAuth.accountValidateAttribute db payload)
  | accountsList => read db (FullAuth.accountsList db)
  | accountsBasicInfoSearch => read db (FullAuth.accountsBasicInfoSearch env db payload)
  | accountGroups => read db (FullAuth.accountGroups db payload)
  | accountDirectAttribs => read db (FullAuth.accountDirectAttribs db payload)
  | accountUsableAttribs => read db (FullAuth.accountUsableAttribs db payload)
  | accountExpirationDate => read db (FullAuth.accountExpirationDate db payload)
  | accountLastLogin => read db (FullAuth.accountLastLogin db payload)
  | resetBadAttempts => some (FullAuth.resetBadAttempts env db payload)
  | getAccountAllSecretsPublicData => read db (FullAuth.getAccountAllSecretsPublicData env db payload)
  | attribAdd => some (FullAuth.attribAdd env db payload)
  | attribRemove => some (FullAuth.attribRemove env db payload)
  | attribGroupAdd => some (FullAuth.attribGroupAdd env db payload)
  | attribGroupRemove => some (FullAuth.attribGroupRemove env db payload)
  | attribAccountAdd => some (FullAuth.attribAccountAdd env db payload)
  | attribAccountRemove => some (FullAuth.attribAccountRemove env db payload)
  | attribChangeDescription => some (FullAuth.attribChangeDescription env db payload)
  | attribDescription => read db (FullAuth.attribDescription db payload)
  | attribsList => read db (FullAuth.attribsList db payload)
  | attribGroups => read db (FullAuth.attribGroups db payload)
  | attribAccounts => read db (FullAuth.attribAccounts db payload)
  | attribsBasicInfoSearch => read db (FullAuth.attribsBasicInfoSearch env db payload)
  | attribsLeftListForGroup => read db (FullAuth.attribsLeftListForGroup db payload)
  | applicationBasicInfo => read db (FullAuth.applicationBasicInfo db payload)
  | applicationAdd => some (FullAuth.applicationAdd env db payload)
  | applicationRemove => some (FullAuth.applicationRemove env db payload)
  | applicationExist => some (FullAuth.applicationExist db payload)
  | applicationDescription => read db (FullAuth.applicationDescription db payload)
  | applicationChangeDescription => some (FullAuth.applicationChangeDescription env db payload)
  | applicationChangeKey => some (FullAuth.applicationChangeKey env db payload)
  | applicationList => read db (FullAuth.applicationList db)
  | applicationValidateOwner => some (FullAuth.applicationValidateOwner db payload)
  | applicationValidateAccount => some (FullAuth.applicationValidateAccount db payload)
  | applicationOwners => read db (FullAuth.applicationOwners db payload)
  | applicationAccounts => read db (FullAuth.applicationAccounts db payload)
  | accountApplications => read db (FullAuth.accountApplications db payload)
  | applicationAccountAdd => some (FullAuth.applicationAccountAdd env db payload)
  | applicationAccountRemove => some (FullAuth.applicationAccountRemove env db payload)
  | applicationOwnerAdd => some (FullAuth.applicationOwnerAdd env db payload)
  | applicationOwnerRemove => some (FullAuth.applicationOwnerRemove env db payload)
  | applicationsBasicInfoSearch => read db (FullAuth.applicationsBasicInfoSearch env db payload)
  | groupAdd => some (FullAuth.groupAdd env db payload)
  | groupRemove => some (FullAuth.groupRemove env db payload)
  | groupExist => some (FullAuth.groupExist db payload)
  | groupAccountAdd => some (FullAuth.groupAccountAdd env db payload)
  | groupAccountRemove => some (FullAuth.groupAccountRemove env db payload)
  | groupChangeDescription => some (FullAuth.groupChangeDescription env db payload)
  | groupValidateAttribute => some (FullAuth.groupValidateAttribute db payload)
  | groupDescription => read db (FullAuth.groupDescription db payload)
  | groupsList => read db (FullAuth.groupsList db)
  | groupAttribs => read db (FullAuth.groupAttribs db payload)
  | groupAccounts => read db (FullAuth.groupAccounts db payload)
  | groupsBasicInfoSearch => read db (FullAuth.groupsBasicInfoSearch env db payload)
  | groupBasicInfo => read db (FullAuth.groupBasicInfo db payload)

/-! ## The operations -/

/-- The result of an operation, where it has one of this kind, and the database that it leaves. -/
abbrev Outcome := Option Bool × Directory

def changed (result : Bool × Directory) : Outcome := (some result.1, result.2)

def asked (result : Bool) : Outcome := (some result, db)

/-- The manager's operation of the name, with the fields of the payload; what only reads changes nothing. -/
def Method.operation : Method → Outcome
  | accountAdd =>
    changed (db.accountAdd (accountName payload) ⟨env.sql, env.sql, env.sql⟩ env.now env.confirmationToken
      (accountAddSecret env payload) (accountAddDetails payload) (toTime (payload.asUInt64 "expirationDate" 0))
      (accountAttribs payload) env.authUser)
  | accountExist => asked db (db.accountExist (accountName payload))
  | accountChangeSecret =>
    changed (db.accountChangeSecret (accountName payload) env.sql env.sql
      (secretFromMap (((payload.member "secretData").bind jsonToMap).getD []))
      (UInt32.ofNat (payload.asUInt "passIndex" 0)))
  | accountRemove => changed (db.accountRemove env.sql (accountName payload))
  | accountDisable => changed (db.accountDisable env.sql (accountName payload) (payload.asBool "disabled" false))
  | accountConfirm =>
    changed (db.accountConfirm env.sql (accountName payload) (payload.asString "confirmationToken" ""))
  | accountChangeBasicInfo => changed (changeBasicInfo env db payload)
  | accountChangeDescription =>
    changed (db.accountChangeDescription env.sql (accountName payload) (payload.asString "description" ""))
  | accountChangeGivenName =>
    changed (db.accountChangeGivenName env.sql (accountName payload) (payload.asString "givenName" ""))
  | accountChangeLastName =>
    changed (db.accountChangeLastName env.sql (accountName payload) (payload.asString "lastName" ""))
  | accountChangeEmail => changed (db.accountChangeEmail env.sql (accountName payload) (payload.asString "email" ""))
  | accountChangeExtraData =>
    changed (db.accountChangeExtraData env.sql (accountName payload) (payload.asString "extraData" ""))
  | accountChangeExpiration =>
    changed (db.accountChangeExpiration env.sql (accountName payload) (toTime (payload.asUInt64 "expiration" 0)))
  | accountChangeGroupSet =>
    match payload.member "groups" with
    | some (.array items) =>
      changed (db.accountChangeGroupSet (accountName payload) env.sql (fun _ => env.sql)
        (.ofList ((items.mapM (itemAsString env)).getD [])))
    | _ => (some false, db)
  | isAccountDisabled => asked db (db.isAccountDisabled (accountName payload))
  | isAccountConfirmed => asked db (db.isAccountConfirmed (accountName payload))
  | isAccountSuperUser => asked db (db.isAccountSuperUser (accountName payload))
  | isAccountExpired => asked db (db.isAccountExpired (accountName payload) env.now)
  | accountValidateAttribute => asked db (db.accountValidateAttribute (accountName payload) (attrib payload))
  | resetBadAttempts =>
    (none, db.resetBadAttempts env.sql (accountName payload) (UInt32.ofNat (payload.asUInt "passIndex" 0)))
  | attribAdd => changed (db.attribAdd env.sql (attrib payload) (payload.asString "description" ""))
  | attribRemove => changed (db.attribRemove env.sql (attrib payload))
  | attribGroupAdd => changed (db.attribGroupAdd env.sql (attrib payload) (groupName payload))
  | attribGroupRemove => changed (db.attribGroupRemove env.sql (attrib payload) (groupName payload))
  | attribAccountAdd => changed (db.attribAccountAdd env.sql (attrib payload) (accountName payload))
  | attribAccountRemove => changed (db.attribAccountRemove env.sql (attrib payload) (accountName payload))
  | attribChangeDescription =>
    changed (db.attribChangeDescription env.sql (attrib payload) (payload.asString "attribDescription" ""))
  | applicationAdd =>
    changed (db.applicationAdd env.sql (appName payload) env.toBase64Obf (payload.asString "description" "")
      (payload.asString "appKey" "") env.authUser)
  | applicationRemove => changed (db.applicationRemove env.sql (appName payload))
  | applicationExist => asked db (db.applicationExist (appName payload))
  | applicationChangeDescription =>
    changed (db.applicationChangeDescription env.sql (appName payload) (payload.asString "description" ""))
  | applicationChangeKey =>
    changed (db.applicationChangeKey env.sql (appName payload) env.toBase64Obf (payload.asString "appKey" ""))
  | applicationValidateOwner => asked db (db.applicationValidateOwner (appName payload) (accountName payload))
  | applicationValidateAccount => asked db (db.applicationValidateAccount (appName payload) (accountName payload))
  | applicationAccountAdd => changed (db.applicationAccountAdd env.sql (appName payload) (accountName payload))
  | applicationAccountRemove => changed (db.applicationAccountRemove env.sql (appName payload) (accountName payload))
  | applicationOwnerAdd => changed (db.applicationOwnerAdd env.sql (appName payload) (accountName payload))
  | applicationOwnerRemove => changed (db.applicationOwnerRemove env.sql (appName payload) (accountName payload))
  | groupAdd => changed (db.groupAdd env.sql (groupName payload) (payload.asString "groupDescription" ""))
  | groupRemove => changed (db.groupRemove env.sql (groupName payload))
  | groupExist => asked db (db.groupExist (groupName payload))
  | groupAccountAdd => changed (db.groupAccountAdd env.sql (groupName payload) (accountName payload))
  | groupAccountRemove => changed (db.groupAccountRemove env.sql (groupName payload) (accountName payload))
  | groupChangeDescription =>
    changed (db.groupChangeDescription env.sql (groupName payload) (payload.asString "groupDescription" ""))
  | groupValidateAttribute => asked db (db.groupValidateAttribute (groupName payload) (attrib payload))
  | _ => (none, db)

/-! ## What a method must do -/

/-- The field that the result is reported in. -/
def Method.resultField : Method → String
  | isAccountDisabled => "disabled"
  | isAccountConfirmed => "confirmed"
  | isAccountSuperUser => "superuser"
  | isAccountExpired => "isAccountExpired"
  | _ => "retCode"

def boolField (answer : Json) (field : String) : Option Bool :=
  match answer.find field with
  | some (.bool value) => some value
  | _ => none

/-- The call comes back, leaves the rows that the operation leaves, and reports its result. -/
def Agrees (field : String) (result : Option Answer) (operation : Outcome) : Prop :=
  ∃ answer after, result = some (answer, after) ∧ operation.2.Same after ∧
    ∀ value, operation.1 = some value → boolField answer field = some value

def Faithful (method : Method) : Prop :=
  Agrees method.resultField (method.call env db payload) (method.operation env db payload)

/-- When it does: the two methods that call another operation only where that one does the same, the others where
their own checks let the payload pass. -/
def Conforms : Method → Prop
  | .accountAdd => validAccountName (accountName payload) = true ∨ db.accountExist (accountName payload) = true ∨
      env.sql.executes = false
  | .accountChangeSecret => ((payload.member "secretData").bind jsonToMap).isSome = true
  | .accountChangeGroupSet => ∃ groups, payload.member "groups" = some groups ∧
      ∀ items, groups = .array items → (items.mapM (itemAsString env)).isSome = true
  | .accountConfirm => env.sql.executes = false ∨
      (payload.asBool "disabled" false = true ∧ db.isThereAnotherSuperUser env.sql (accountName payload) = false)
  | .accountValidateAttribute => False
  | .attribAdd => appName payload ≠ env.dirAppName ∨ env.sql.executes = false ∨
      db.applicationExist (appName payload) = false ∨ db.attribExist (attrib payload) = true
  | .attribRemove => appName payload ≠ env.dirAppName ∨ env.sql.executes = false
  | .applicationRemove => appName payload ≠ env.dirAppName ∨ env.sql.executes = false
  | .attribChangeDescription => env.sql.executes = false ∨
      (appName payload ≠ env.dirAppName ∧
        (∀ description, db.attribs.get (attrib payload) = some description →
          description = payload.asString "attribDescription" "") ∧
        db.attribsAccounts.linked (attrib payload, payload.asString "attribDescription" "") = false)
  | _ => True

end

/-! ## Wrappers that call the operation of their name -/

theorem agrees_object_iff (result : Bool) (rest : List (String × Json)) (after : Directory)
    (operation : Bool × Directory) :
    Agrees "retCode" (some (.object (("retCode", .bool result) :: rest), after)) (changed operation) ↔
      operation.1 = result ∧ operation.2.Same after := by
  have reported : boolField (.object (("retCode", .bool result) :: rest)) "retCode" = some result := by
    simp [boolField, Json.find]
  constructor
  · rintro ⟨answer, _, answered, same, values⟩
    cases answered
    have value := values operation.1 rfl
    rw [reported] at value
    exact ⟨(Option.some.inj value).symm, same⟩
  · rintro ⟨rfl, same⟩
    refine ⟨_, _, rfl, same, ?_⟩
    rintro value ⟨⟩
    exact reported

theorem agrees_retCode_iff (result operation : Bool × Directory) :
    Agrees "retCode" (some (retCode result)) (changed operation) ↔
      operation.1 = result.1 ∧ operation.2.Same result.2 :=
  agrees_object_iff result.1 [] result.2 operation

theorem agrees_changed (result : Bool × Directory) : Agrees "retCode" (some (retCode result)) (changed result) :=
  (agrees_retCode_iff result result).mpr ⟨rfl, .refl _⟩

theorem agrees_asked (db : Directory) (result : Bool) :
    Agrees "retCode" (some (retCode (result, db))) (asked db result) :=
  agrees_changed (result, db)

/-- The result is reported in a field of its own. -/
theorem agrees_reported (db : Directory) (field : String) (result : Bool) :
    Agrees field (read db (.object [(field, .bool result)])) (asked db result) := by
  refine ⟨_, _, rfl, .refl _, ?_⟩
  rintro value ⟨⟩
  simp [boolField, Json.find]

theorem agrees_read (db : Directory) (field : String) (answer : Json) : Agrees field (read db answer) (none, db) :=
  ⟨_, _, rfl, .refl _, fun _ none => nomatch none⟩

/-! ## Wrappers that do something else -/

section
variable {env : Environment} {db : Directory} {payload : Json}

theorem agrees_refused_iff (operation : Bool × Directory) :
    Agrees "retCode" (some (refused db)) (changed operation) ↔ operation.1 = false ∧ operation.2.Same db :=
  agrees_object_iff false [] db operation

/-- The confirmation is never written: its statement waits for the lock that the token's row holds. -/
theorem accountConfirm_eq (db : Directory) (sql : Connector) (sAccountName confirmationToken : String) :
    db.accountConfirm sql sAccountName confirmationToken = (false, db) := by
  unfold Directory.accountConfirm
  split
  · split
    · exact Directory.query_refused fun executes => nomatch executes
    · rfl
  · rfl

theorem faithful_accountConfirm_iff :
    Faithful env db payload .accountConfirm ↔ Conforms env db payload .accountConfirm := by
  change Agrees "retCode" (some (retCode (db.accountDisable env.sql (accountName payload) (payload.asBool "disabled" false))))
    (changed (db.accountConfirm env.sql (accountName payload) (payload.asString "confirmationToken" ""))) ↔
    env.sql.executes = false ∨ (payload.asBool "disabled" false = true ∧
      db.isThereAnotherSuperUser env.sql (accountName payload) = false)
  rw [accountConfirm_eq, agrees_retCode_iff, Directory.accountDisable]
  split
  · rename_i kept
    exact iff_of_true ⟨rfl, .refl db⟩ (.inr kept)
  · rename_i free
    rw [Directory.query_updateAccount]
    cases env.sql.executes with
    | false => exact iff_of_true ⟨rfl, .refl db⟩ (.inl rfl)
    | true => exact iff_of_false (fun agrees => nomatch agrees.1) (by simp [free])

/-- Where the wrapper refuses, the operation would have to be refused by the first of its INSERTs. -/
theorem refuses_accountAdd_iff (secretData : SaltedSecret) (accountDetails : AccountDetails) (expirationDate : Time)
    (attribs : AccountAttribs) {sAccountName : String} (fresh : db.accountExist sAccountName = false) :
    let added := db.accountAdd sAccountName ⟨env.sql, env.sql, env.sql⟩ env.now env.confirmationToken secretData
      accountDetails expirationDate attribs env.authUser
    (added.1 = false ∧ added.2.Same db) ↔ env.sql.executes = false := by
  have new : db.accounts.get sAccountName = none := by simpa [Directory.accountExist] using fresh
  dsimp only
  cases executes : env.sql.executes with
  | false =>
    rw [Directory.accountAdd_refused fun starts => absurd starts.1 (by simp [executes])]
    exact iff_of_true ⟨rfl, .refl db⟩ rfl
  | true =>
    have starts : db.AddStarts sAccountName ⟨env.sql, env.sql, env.sql⟩ := ⟨executes, new⟩
    refine iff_of_false ?_ (by decide)
    rintro ⟨failed, same⟩
    by_cases ends : db.AddEnds sAccountName ⟨env.sql, env.sql, env.sql⟩
    · rw [Directory.accountAdd_done starts ends] at failed
      cases failed
    · obtain ⟨-, stays⟩ : _ ∧ _ := Directory.accountAdd_cut starts ends
      apply stays
      rw [← same.accounts, new]

theorem faithful_accountAdd_iff : Faithful env db payload .accountAdd ↔ Conforms env db payload .accountAdd := by
  obtain ⟨secretData, drawn⟩ : ∃ secretData : SaltedSecret, secretData.val = accountAddSecret env payload :=
    ⟨⟨_, (fresh_createNewSecret env.crypto env.randomSalt (payload.asString "secretTempPass" "") .ssha256 true 0 0).salted⟩,
      rfl⟩
  dsimp only [Faithful, Method.resultField, Method.call, Method.operation, Conforms, accountAdd]
  rw [← drawn]
  cases exists_ : db.accountExist (accountName payload) with
  | true =>
    rw [if_pos rfl, agrees_object_iff]
    have used : ¬db.AddStarts (accountName payload) ⟨env.sql, env.sql, env.sql⟩ := fun starts => by
      simp [Directory.accountExist, starts.2] at exists_
    rw [Directory.accountAdd_refused used]
    exact iff_of_true ⟨rfl, .refl db⟩ (.inr (.inl rfl))
  | false =>
    rw [if_neg Bool.false_ne_true]
    cases valid : validAccountName (accountName payload) with
    | true =>
      have nonempty : (accountName payload).isEmpty = false := by
        unfold validAccountName at valid
        simpa using (Bool.and_eq_true_iff.mp valid).1
      rw [nonempty, if_neg Bool.false_ne_true, Bool.not_true, if_neg Bool.false_ne_true]
      refine iff_of_true ?_ (.inl rfl)
      split
      · exact agrees_changed _
      · rename_i fails
        rw [agrees_object_iff]
        exact ⟨Bool.eq_false_iff.mpr fails, .refl _⟩
    | false =>
      simp only [Bool.not_false, if_true, Bool.false_eq_true, false_or]
      have refuses := @refuses_accountAdd_iff env db secretData (accountAddDetails payload)
        (toTime (payload.asUInt64 "expirationDate" 0)) (accountAttribs payload) (accountName payload) exists_
      refine Iff.trans ?_ refuses
      split <;> exact agrees_object_iff _ _ _ _

/-! ## The guarded attributes -/

/-- A guard refuses, or lets a call pass. -/
theorem agrees_guard_iff {guarded : Prop} [Decidable guarded] (operation called : Bool × Directory) :
    Agrees "retCode" (some (if guarded then refused db else retCode called)) (changed operation) ↔
      if guarded then operation.1 = false ∧ operation.2.Same db
      else operation.1 = called.1 ∧ operation.2.Same called.2 := by
  split
  · exact agrees_refused_iff operation
  · exact agrees_retCode_iff called operation

/-- The call is the operation's own: the guard refuses what would have to fail by itself. -/
theorem agrees_guarded_iff {guarded : Prop} [Decidable guarded] {operation : Bool × Directory} {fails : Prop}
    (refuses : operation.1 = false ∧ operation.2.Same db ↔ fails) :
    Agrees "retCode" (some (if guarded then refused db else retCode operation)) (changed operation) ↔
      ¬guarded ∨ fails := by
  rw [agrees_guard_iff, ← refuses]
  split
  · rename_i holds
    exact (or_iff_right (not_not.mpr holds)).symm
  · rename_i free
    exact iff_of_true ⟨rfl, .refl _⟩ (.inl free)

theorem faithful_attribAdd_iff : Faithful env db payload .attribAdd ↔ Conforms env db payload .attribAdd := by
  apply agrees_guarded_iff
  rw [Directory.attribAdd]
  cases executes : env.sql.executes with
  | false =>
    rw [Directory.query_refused fun executed => by cases executed.symm.trans executes]
    exact iff_of_true ⟨rfl, .refl db⟩ (.inl rfl)
  | true =>
    simp only [Bool.true_eq_false, false_or]
    by_cases application : db.applicationExist (appName payload) = true
    case neg =>
      have refuses : Directory.insertAttrib (attrib payload) (payload.asString "description" "") db = none := if_neg application
      rw [Directory.query_refused fun _ => refuses]
      exact iff_of_true ⟨rfl, .refl db⟩ (.inl (Bool.eq_false_iff.mpr application))
    case pos =>
      cases fresh : db.attribs.get (attrib payload) with
      | some description =>
        have refuses : Directory.insertAttrib (attrib payload) (payload.asString "description" "") db = none := by
          rw [Directory.insertAttrib, insertRow_used _ (by simp [fresh])]
          exact ite_self _
        rw [Directory.query_refused fun _ => refuses]
        exact iff_of_true ⟨rfl, .refl db⟩ (.inr (by simp [Directory.attribExist, fresh]))
      | none =>
        have done : Directory.insertAttrib (attrib payload) (payload.asString "description" "") db =
            some { db with attribs := db.attribs.insert (attrib payload) (payload.asString "description" "") } := by
          rw [Directory.insertAttrib, insertRow_fresh _ fresh]
          exact if_pos application
        rw [Directory.query_done executes done]
        exact iff_of_false (fun failed => by cases failed.1) (by simp [application, Directory.attribExist, fresh])

/-- A DELETE is refused only where it is not executed. -/
theorem deletes_iff (sql : Connector) (delete : Directory → Directory) :
    (db.query sql fun db => some (delete db)).1 = false ∧ (db.query sql fun db => some (delete db)).2.Same db ↔
      sql.executes = false := by
  rw [@Directory.query_total db (delete db) (fun db => some (delete db)) sql rfl]
  cases sql.executes with
  | false => exact iff_of_true ⟨rfl, .refl db⟩ rfl
  | true => exact iff_of_false (fun failed => by cases failed.1) (by decide)

theorem faithful_attribRemove_iff : Faithful env db payload .attribRemove ↔ Conforms env db payload .attribRemove :=
  agrees_guarded_iff (deletes_iff env.sql _)

theorem faithful_applicationRemove_iff :
    Faithful env db payload .applicationRemove ↔ Conforms env db payload .applicationRemove :=
  agrees_guarded_iff (deletes_iff env.sql _)

/-- An UPDATE changes nothing where the row has the value already, or where there is no row. -/
theorem updateRow_same_iff {K V : Type} [DecidableEq K] (table : Table K V) (key : K) (value : V) :
    (∀ other, table.get other = (table.updateRow key fun _ => value).get other) ↔
      ∀ old, table.get key = some old → old = value := by
  simp only [get_updateRow]
  constructor
  · intro same old found
    have kept := same key
    rw [if_pos rfl, found] at kept
    exact Option.some.inj kept
  · intro kept other
    split
    · rename_i here
      subst here
      cases found : table.get other with
      | none => rfl
      | some old => rw [kept old found]; rfl
    · rfl

theorem deleteWhere_same_iff {K : Type} [DecidableEq K] (table : Links K) (gone : K → Bool) :
    (∀ link, (table.deleteWhere fun key _ => gone key).linked link = table.linked link) ↔
      ∀ link, gone link = true → table.linked link = false := by
  simp only [linked_deleteWhere]
  refine forall_congr' fun link => ?_
  cases gone link <;> simp

theorem faithful_attribChangeDescription_iff :
    Faithful env db payload .attribChangeDescription ↔ Conforms env db payload .attribChangeDescription := by
  dsimp only [Faithful, Method.resultField, Method.call, Method.operation, Conforms, attribChangeDescription]
  generalize payload.asString "attribDescription" "" = description
  rw [agrees_guard_iff, Directory.attribChangeDescription, Directory.attribAccountRemove,
    @Directory.query_total db _ (Directory.updateAttrib (attrib payload) description) env.sql rfl,
    @Directory.query_total db _ (fun db => some { db with
      attribsAccounts := db.attribsAccounts.deleteWhere fun link _ => link.1 = attrib payload ∧ link.2 = description })
      env.sql rfl]
  cases env.sql.executes with
  | false =>
    refine iff_of_true ?_ (.inl rfl)
    split
    · exact ⟨rfl, .refl db⟩
    · exact ⟨rfl, .refl db⟩
  | true =>
    simp only [Bool.true_eq_false, false_or, if_true]
    split
    · rename_i guarded
      exact iff_of_false (fun failed => by cases failed.1) fun conforms => conforms.1 guarded
    · rename_i free
      rw [← updateRow_same_iff]
      constructor
      · rintro ⟨-, same⟩
        have kept := (deleteWhere_same_iff db.attribsAccounts _).mp same.attribsAccounts
        exact ⟨free, same.attribs, kept (attrib payload, description) (by simp)⟩
      · rintro ⟨-, kept, unlinked⟩
        refine ⟨trivial, { Directory.Same.refl db with attribs := kept, attribsAccounts := ?_ }⟩
        apply (deleteWhere_same_iff db.attribsAccounts _).mpr
        rintro ⟨held, account⟩ gone
        obtain ⟨rfl, rfl⟩ := of_decide_eq_true gone
        exact unlinked

/-- The answer stands in another field, where nobody looks for it. -/
theorem not_faithful_accountValidateAttribute : ¬Faithful env db payload .accountValidateAttribute := by
  rintro ⟨answer, _, answered, _, values⟩
  cases answered
  have value := values _ rfl
  have missing : boolField (accountValidateAttribute db payload) "retCode" = none := by
    simp [boolField, Json.find, accountValidateAttribute, List.lookup]
  cases missing.symm.trans value

/-! ## The calls that may throw -/

theorem faithful_accountChangeSecret_iff :
    Faithful env db payload .accountChangeSecret ↔ Conforms env db payload .accountChangeSecret := by
  have called : accountChangeSecret env db payload = ((payload.member "secretData").bind jsonToMap).map fun map =>
      retCode (db.accountChangeSecret (accountName payload) env.sql env.sql (secretFromMap map)
        (UInt32.ofNat (payload.asUInt "passIndex" 0))) := by
    unfold accountChangeSecret
    cases payload.member "secretData" with
    | none => rfl
    | some secretData => cases map : jsonToMap secretData <;> simp [map]
  dsimp only [Faithful, Method.resultField, Method.call, Method.operation, Conforms]
  cases found : (payload.member "secretData").bind jsonToMap with
  | none =>
    rw [called, found]
    exact iff_of_false (fun ⟨_, _, answered, _⟩ => nomatch answered) Bool.false_ne_true
  | some map =>
    rw [called, found]
    exact iff_of_true (agrees_changed _) rfl

theorem faithful_accountChangeGroupSet_iff :
    Faithful env db payload .accountChangeGroupSet ↔ Conforms env db payload .accountChangeGroupSet := by
  dsimp only [Faithful, Method.resultField, Method.call, Method.operation, Conforms, accountChangeGroupSet]
  cases found : payload.member "groups" with
  | none => exact iff_of_false (fun ⟨_, _, answered, _⟩ => nomatch answered) (fun ⟨_, asked, _⟩ => nomatch asked)
  | some groups =>
    simp only [Option.bind_eq_bind, Option.bind_some, Option.some.injEq, exists_eq_left']
    cases groups with
    | array items =>
      simp only [Json.array.injEq, forall_eq']
      cases items.mapM (itemAsString env) with
      | none => exact iff_of_false (fun ⟨_, _, answered, _⟩ => nomatch answered) Bool.false_ne_true
      | some groupSet => exact iff_of_true (agrees_changed _) rfl
    | _ => exact iff_of_true (agrees_changed (false, db)) fun _ array => nomatch array

end

/-! ## Every method -/

theorem faithful_iff (env : Environment) (db : Directory) (payload : Json) (method : Method) :
    Faithful env db payload method ↔ Conforms env db payload method := by
  cases method with
  | accountAdd => exact faithful_accountAdd_iff
  | accountChangeSecret => exact faithful_accountChangeSecret_iff
  | accountConfirm => exact faithful_accountConfirm_iff
  | accountChangeGroupSet => exact faithful_accountChangeGroupSet_iff
  | accountValidateAttribute => exact iff_of_false not_faithful_accountValidateAttribute id
  | attribAdd => exact faithful_attribAdd_iff
  | attribRemove => exact faithful_attribRemove_iff
  | attribChangeDescription => exact faithful_attribChangeDescription_iff
  | applicationRemove => exact faithful_applicationRemove_iff
  -- the operation of the name, with its result
  | accountRemove | accountDisable | accountChangeBasicInfo | accountChangeDescription | accountChangeGivenName
  | accountChangeLastName | accountChangeEmail | accountChangeExtraData | accountChangeExpiration | attribGroupAdd
  | attribGroupRemove | attribAccountAdd | attribAccountRemove | applicationAdd | applicationChangeDescription
  | applicationChangeKey | applicationAccountAdd | applicationAccountRemove | applicationOwnerAdd
  | applicationOwnerRemove | groupAdd | groupRemove | groupAccountAdd | groupAccountRemove | groupChangeDescription =>
    exact iff_of_true (agrees_changed _) trivial
  -- the operation of the name answers, and changes nothing
  | accountExist | applicationExist | applicationValidateOwner | applicationValidateAccount | groupExist
  | groupValidateAttribute =>
    exact iff_of_true (agrees_asked db _) trivial
  | isAccountDisabled | isAccountConfirmed | isAccountSuperUser | isAccountExpired =>
    exact iff_of_true (agrees_reported db _ _) trivial
  -- no result to report
  | resetBadAttempts => exact iff_of_true ⟨_, _, rfl, .refl _, fun _ none => nomatch none⟩ trivial
  | accountGivenName | accountLastName | accountBasicInfo | accountDescription | accountEmail | accountExtraData
  | accountsList | accountsBasicInfoSearch | accountGroups | accountDirectAttribs | accountUsableAttribs
  | accountExpirationDate | accountLastLogin | getAccountAllSecretsPublicData | attribDescription | attribsList
  | attribGroups | attribAccounts | attribsBasicInfoSearch | attribsLeftListForGroup | applicationBasicInfo
  | applicationDescription | applicationList | applicationOwners | applicationAccounts | accountApplications
  | applicationsBasicInfoSearch | groupDescription | groupsList | groupAttribs | groupAccounts | groupsBasicInfoSearch
  | groupBasicInfo =>
    exact iff_of_true (agrees_read db _ _) trivial

/-- To confirm a disabled account is to enable it. -/
theorem not_faithful :
    let env : Environment :=
      { crypto := ⟨id, id, fun password _ => password, fun password _ => password⟩
        randomSalt := ⟨[0, 0, 0, 0], rfl⟩
        confirmationToken := "token"
        now := 0
        toBase64Obf := id
        valueToString := fun _ => ""
        sql := .working
        likes := fun _ _ => false
        bAuthPolicyMaxTries := 3
        dirAppName := "IAM"
        authUser := "admin" }
    let db : Directory := { Directory.empty with
      accounts := AList.singleton "alice" ⟨"", "", "", "", "", false, none, 0, 0, false, false⟩
      accountActivationTokens := AList.singleton "alice" "token" }
    let payload : Json := .object [("accountName", .string "alice"), ("confirmationToken", .string "token")]
    (accountConfirm env db payload).2.isAccountDisabled "alice" = false ∧ ¬Faithful env db payload .accountConfirm := by
  intro env db payload
  refine ⟨by decide +kernel, fun faithful => ?_⟩
  obtain refused | ⟨disabled, -⟩ := faithful_accountConfirm_iff.mp faithful
  · cases refused
  · revert disabled
    decide +kernel

end Mantids.RPC.FullAuth
