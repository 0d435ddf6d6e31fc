import Mantids.Auth.Session

/-! The accounts of the authentication database (`manager_db_accounts.cpp`): the
tables that decide who may log in, and the statements that read and change them. -/

set_option autoImplicit false

namespace Mantids.Auth

open Library

structure AccountAttribs where
  enabled : Bool
  confirmed : Bool
  superuser : Bool
  deriving DecidableEq

/-- A row of `vauth_v3_accounts`. -/
structure Account where
  attribs : AccountAttribs
  expiration : Time
  lastLogin : Time

/-- How the password of a secret is stored. -/
inductive PasswordFunction where
  | notFound
  | plain
  | sha256
  | sha512
  | ssha256
  | ssha512
  | gAuthTime
  deriving DecidableEq

/-- A row of `vauth_v3_accountsecrets`; the column `badAttempts` is read as 32 bits. -/
structure Secret where
  passwordFunction : PasswordFunction
  hash : String
  ssalt : List UInt8
  expiration : Time
  forceExpiration : Bool
  badAttempts : Nat
  gAuthSteps : UInt32

namespace Secret

/-- The default constructor. -/
def none : Secret := ⟨.plain, "", [0xFF, 0xFF, 0xFF, 0xFF], 0, false, 0, 0⟩

def isExpired (secret : Secret) (now : Time) : Bool :=
  (decide (now > secret.expiration) && secret.expiration != 0) || secret.forceExpiration

end Secret

structure SecretIndex where
  indexDescription : String
  loginRequired : Bool

structure Database where
  accounts : Table String Account
  secrets : Table (String × PassIndex) Secret
  secretsIndexs : Table PassIndex SecretIndex
  /-- Application and user. -/
  applicationUsers : List (String × String)

/-- What the connector makes of an operation's statements: whether a SELECT gets
its results, whether a change is executed. -/
structure Connector where
  answers : Bool
  executes : Bool

def Connector.working : Connector := ⟨true, true⟩

namespace Database

def setAttribs (db : Database) (sAccountName : String) (change : AccountAttribs → AccountAttribs) : Database :=
  match db.accounts.get sAccountName with
  | some account =>
    { db with accounts := db.accounts.insert sAccountName { account with attribs := change account.attribs } }
  | none => db

/-! ## Superusers -/

/-- Is there an enabled superuser of another name. -/
def isThereAnotherSuperUser (db : Database) (sql : Connector) (sAccountName : String) : Bool :=
  sql.answers && db.accounts.entries.any fun row =>
    row.1 != sAccountName && row.2.attribs.superuser && row.2.attribs.enabled

def accountRemove (db : Database) (sql : Connector) (sAccountName : String) : Bool × Database :=
  if db.isThereAnotherSuperUser sql sAccountName then
    if sql.executes then (true, { db with accounts := db.accounts.erase sAccountName }) else (false, db)
  else (false, db)

def accountDisable (db : Database) (sql : Connector) (sAccountName : String) (disabled : Bool) : Bool × Database :=
  if disabled = true ∧ db.isThereAnotherSuperUser sql sAccountName = false then (false, db)
  else if sql.executes then (true, db.setAttribs sAccountName fun attribs => { attribs with enabled := !disabled })
  else (false, db)

def accountChangeAttribs (db : Database) (sql : Connector) (sAccountName : String)
    (accountAttribs : AccountAttribs) : Bool × Database :=
  if (accountAttribs.confirmed = false ∨ accountAttribs.enabled = false ∨ accountAttribs.superuser = false) ∧
      db.isThereAnotherSuperUser sql sAccountName = false then (false, db)
  else if sql.executes then (true, db.setAttribs sAccountName fun _ => accountAttribs)
  else (false, db)

/-! ## Reading an account -/

def accountExist (db : Database) (sAccountName : String) : Bool := (db.accounts.get sAccountName).isSome

def isAccountDisabled (db : Database) (sAccountName : String) : Bool :=
  match db.accounts.get sAccountName with
  | some account => !account.attribs.enabled
  | none => true

def isAccountConfirmed (db : Database) (sAccountName : String) : Bool :=
  match db.accounts.get sAccountName with
  | some account => account.attribs.confirmed
  | none => false

def accountExpirationDate (db : Database) (sAccountName : String) : Time :=
  match db.accounts.get sAccountName with
  | some account => account.expiration
  | none => 1

def isAccountExpired (db : Database) (now : Time) (sAccountName : String) : Bool :=
  db.accountExpirationDate sAccountName != 0 && decide (db.accountExpirationDate sAccountName < now)

def accountLastLogin (db : Database) (sAccountName : String) : Time :=
  match db.accounts.get sAccountName with
  | some account => account.lastLogin
  | none => 1

def applicationValidateAccount (db : Database) (appName sAccountName : String) : Bool :=
  (appName, sAccountName) ∈ db.applicationUsers

/-- The secret, whether the account was found and whether the index was. -/
def retrieveSecret (db : Database) (sAccountName : String) (passIndex : PassIndex) : Secret × Bool × Bool :=
  if db.accountExist sAccountName then
    match db.secrets.get (sAccountName, passIndex) with
    | some secret => ({ secret with badAttempts := secret.badAttempts % 2 ^ 32 }, true, true)
    | none => (.none, true, false)
  else (.none, false, false)

/-! ## The indexes of a login -/

def passIndexesRequiredForLogin (db : Database) : List PassIndex :=
  (db.secretsIndexs.entries.filter fun row => row.2.loginRequired).map fun row => row.1

def passIndexesUsedByAccount (db : Database) (sAccountName : String) : List PassIndex :=
  (db.secrets.entries.filter fun row => row.1.1 = sAccountName).map fun row => row.1.2

def passIndexDescription (db : Database) (passIndex : PassIndex) : String :=
  match db.secretsIndexs.get passIndex with
  | some row => row.indexDescription
  | none => ""

/-- The index `0xFFFFFFFF` alone when no index is required for a login at all. -/
def accountPassIndexesUsedForLogin (db : Database) (sAccountName : String) : List (PassIndex × String) :=
  if db.passIndexesRequiredForLogin.isEmpty then [(0xFFFFFFFF, "")]
  else ((db.passIndexesUsedByAccount sAccountName).filter fun i => i ∈ db.passIndexesRequiredForLogin).map fun i =>
    (i, db.passIndexDescription i)

/-! ## Counting the attempts -/

def setBadAttempts (db : Database) (sAccountName : String) (passIndex : PassIndex) (change : Nat → Nat) : Database :=
  match db.secrets.get (sAccountName, passIndex) with
  | some secret =>
    { db with secrets :=
      db.secrets.insert (sAccountName, passIndex) { secret with badAttempts := change secret.badAttempts } }
  | none => db

def resetBadAttempts (db : Database) (sAccountName : String) (passIndex : PassIndex) : Database :=
  db.setBadAttempts sAccountName passIndex fun _ => 0

def incrementBadAttempts (db : Database) (sAccountName : String) (passIndex : PassIndex) : Database :=
  db.setBadAttempts sAccountName passIndex (· + 1)

def updateLastLogin (db : Database) (now : Time) (sAccountName : String) : Database :=
  match db.accounts.get sAccountName with
  | some account => { db with accounts := db.accounts.insert sAccountName { account with lastLogin := now } }
  | none => db

end Database

end Mantids.Auth
