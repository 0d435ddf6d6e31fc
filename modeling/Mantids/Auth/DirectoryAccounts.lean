import Mantids.Auth.Directory

/-! What the manager does with accounts (`manager_db_accounts.cpp`, `manager.cpp`), statement by statement. -/

set_option autoImplicit false

namespace Mantids.Auth

open Library

namespace Directory

section
variable (db : Directory) (sql : Connector) (sAccountName : String)

/-- The connector of each of the three INSERTs. -/
structure AddConnectors where
  account : Connector
  token : Connector
  secret : Connector

def accountAdd (sql : AddConnectors) (now : Time) (confirmationToken : String) (secretData : Secret)
    (accountDetails : AccountDetails) (expirationDate : Time) (accountAttribs : AccountAttribs)
    (sCreatorAccountName : String) : Bool × Directory :=
  let row : AccountRow :=
    { givenName := accountDetails.sGivenName
      lastName := accountDetails.sLastName
      email := accountDetails.sEmail
      description := accountDetails.sDescription
      extraData := accountDetails.sExtraData
      superuser := accountAttribs.superuser
      enabled := accountAttribs.enabled
      expiration := expirationDate
      confirmed := accountAttribs.confirmed
      -- the column is bound to the extra data, whoever the creator is
      creator := if sCreatorAccountName.isEmpty then none else some accountDetails.sExtraData
      lastLogin := now }
  andThen (andThen (db.query sql.account (insertAccount sAccountName row))
    fun db => db.query sql.token (insertActivationToken sAccountName confirmationToken))
    fun db => db.query sql.secret (insertSecret sAccountName 0 secretData)

def accountConfirmationToken : String := (db.accountActivationTokens.get sAccountName).getD ""

/-- Is there an enabled superuser of another name. -/
def isThereAnotherSuperUser : Bool :=
  sql.answers && db.accounts.entries.any fun row => row.1 != sAccountName && row.2.superuser && row.2.enabled

def accountRemove : Bool × Directory :=
  if db.isThereAnotherSuperUser sql sAccountName then db.query sql fun db => some (db.deleteAccount sAccountName)
  else (false, db)

def accountExist : Bool := (db.accounts.get sAccountName).isSome

def accountDisable (disabled : Bool) : Bool × Directory :=
  if disabled = true ∧ db.isThereAnotherSuperUser sql sAccountName = false then (false, db)
  else db.query sql (updateAccount sAccountName fun row => { row with enabled := !disabled })

/-- The row of the token is still held when the UPDATE is sent. -/
def accountConfirm (confirmationToken : String) : Bool × Directory :=
  match if sql.answers then db.accountActivationTokens.get sAccountName else none with
  | some token =>
    if !token.isEmpty ∧ token = confirmationToken then
      db.query sql.held (updateAccount sAccountName fun row => { row with confirmed := true })
    else (false, db)
  | none => (false, db)

/-- The result of the DELETE is not looked at. -/
def accountChangeSecret (deletes inserts : Connector) (passwordData : Secret) (passIndex : PassIndex) :
    Bool × Directory :=
  (db.query deletes fun db => some (db.deleteSecret sAccountName passIndex)).2.query inserts
    (insertSecret sAccountName passIndex passwordData)

def accountChangeDescription (description : String) : Bool × Directory :=
  db.query sql (updateAccount sAccountName fun row => { row with description })

def accountChangeGivenName (givenName : String) : Bool × Directory :=
  db.query sql (updateAccount sAccountName fun row => { row with givenName })

def accountChangeLastName (lastName : String) : Bool × Directory :=
  db.query sql (updateAccount sAccountName fun row => { row with lastName })

def accountChangeEmail (email : String) : Bool × Directory :=
  db.query sql (updateAccount sAccountName fun row => { row with email })

def accountChangeExtraData (extraData : String) : Bool × Directory :=
  db.query sql (updateAccount sAccountName fun row => { row with extraData })

def accountChangeExpiration (expiration : Time) : Bool × Directory :=
  db.query sql (updateAccount sAccountName fun row => { row with expiration })

def accountAttribs : AccountAttribs :=
  match db.accounts.get sAccountName with
  | some row => ⟨row.enabled, row.confirmed, row.superuser⟩
  | none => ⟨false, false, false⟩

/-- The groups that are left to insert, each with its own connector; the first refusal ends it. -/
def insertGroups (inserts : String → Connector) : List String → Directory → Bool × Directory
  | [], db => (true, db)
  | group :: rest, db =>
    let inserted := db.query (inserts group) (insertGroupAccount group sAccountName)
    if inserted.1 then insertGroups inserts rest inserted.2 else (false, inserted.2)

def accountChangeGroupSet (deletes : Connector) (inserts : String → Connector) (groupSet : OrderedSet String) :
    Bool × Directory :=
  let deleted := db.query deletes fun db => some (db.deleteGroupsOfAccount sAccountName)
  if deleted.1 then insertGroups sAccountName inserts groupSet.elements deleted.2 else (false, deleted.2)

def accountChangeAttribs (accountAttribs : AccountAttribs) : Bool × Directory :=
  if (accountAttribs.confirmed = false ∨ accountAttribs.enabled = false ∨ accountAttribs.superuser = false) ∧
      db.isThereAnotherSuperUser sql sAccountName = false then (false, db)
  else
    db.query sql (updateAccount sAccountName fun row =>
      { row with
        enabled := accountAttribs.enabled
        confirmed := accountAttribs.confirmed
        superuser := accountAttribs.superuser })

def resetBadAttempts (passIndex : PassIndex) : Directory :=
  (db.query sql (updateSecret sAccountName passIndex fun row =>
    fun column => if column = .badAttempts then .uint32 0 else row column)).2

/-! ## Reading -/

def isAccountDisabled : Bool :=
  match db.accounts.get sAccountName with
  | some row => !row.enabled
  | none => true

def isAccountConfirmed : Bool :=
  match db.accounts.get sAccountName with
  | some row => row.confirmed
  | none => false

def isAccountSuperUser : Bool :=
  match db.accounts.get sAccountName with
  | some row => row.superuser
  | none => false

/-- A text column, empty where there is no such account. -/
def accountText (column : AccountRow → String) : String :=
  match db.accounts.get sAccountName with
  | some row => column row
  | none => ""

def accountGivenName : String := db.accountText sAccountName AccountRow.givenName

def accountLastName : String := db.accountText sAccountName AccountRow.lastName

def accountDescription : String := db.accountText sAccountName AccountRow.description

def accountEmail : String := db.accountText sAccountName AccountRow.email

def accountExtraData : String := db.accountText sAccountName AccountRow.extraData

/-- An account that is not found has expired. -/
def accountExpirationDate : Time :=
  match db.accounts.get sAccountName with
  | some row => row.expiration
  | none => 1

def isAccountExpired (now : Time) : Bool :=
  db.accountExpirationDate sAccountName != 0 && decide (db.accountExpirationDate sAccountName < now)

def accountLastLogin : Time :=
  match db.accounts.get sAccountName with
  | some row => row.lastLogin
  | none => 1

def accountsList : OrderedSet String := .ofList ((db.accounts.select fun _ _ => true).map Prod.fst)

def accountGroups : OrderedSet String :=
  .ofList ((db.groupsAccounts.links fun link => link.2 = sAccountName).map Prod.fst)

def accountDirectAttribs : OrderedSet ApplicationAttrib :=
  .ofList ((db.attribsAccounts.links fun link => link.2 = sAccountName).map Prod.fst)

/-- Is there a row for the account, the attribute and its application. -/
def accountValidateDirectAttribute (attrib : ApplicationAttrib) : Bool :=
  !(db.attribsAccounts.links fun link =>
    link.1.attribName = attrib.attribName ∧ link.2 = sAccountName ∧ link.1.appName = attrib.appName).isEmpty

end

end Directory

end Mantids.Auth
