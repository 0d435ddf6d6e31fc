import Mantids.Auth.SecretStorage
import Mantids.Library.OrderedSet
import Mantids.Library.Relation
import Mathlib

/-! The tables of the authentication database (`manager_db.cpp`) and the statements that change them.
Keys, foreign keys and their cascades are those that the schema declares. -/

set_option autoImplicit false

namespace Mantids.Auth

open Library

structure ApplicationAttrib where
  appName : String
  attribName : String
  deriving DecidableEq

namespace ApplicationAttrib

/-- The `operator<` of the source runs downwards. -/
def key (attrib : ApplicationAttrib) : (String ×ₗ String)ᵒᵈ := OrderDual.toDual (toLex (attrib.appName, attrib.attribName))

theorem key_injective : Function.Injective key := by
  intro first second same
  cases first
  cases second
  simpa [key] using same

instance : LinearOrder ApplicationAttrib := LinearOrder.lift' key key_injective

end ApplicationAttrib

structure AccountDetails where
  sGivenName : String
  sLastName : String
  sEmail : String
  sDescription : String
  sExtraData : String
  deriving DecidableEq

/-- A row of `vauth_v3_accounts` beside its user name. -/
structure AccountRow where
  givenName : String
  lastName : String
  email : String
  description : String
  extraData : String
  superuser : Bool
  creator : Option String
  expiration : Time
  lastLogin : Time
  enabled : Bool
  confirmed : Bool
  deriving DecidableEq

structure ApplicationRow where
  f_appCreator : String
  appDescription : String
  appKey : String
  deriving DecidableEq

/-- The secret's INSERT binds its columns in this order. -/
def SecretRow.ofSecret (sAccountName : String) (passIndex : PassIndex) (secret : Secret) : SecretRow :=
  .ofInsert [.f_secretIndex, .f_userName, .hash, .expiration, .function, .salt, .forcedExpiration, .steps]
    [.uint32 passIndex, .string sAccountName, .string secret.hash, .datetime secret.expiration,
      .uint32 secret.passwordFunction.code, .string (Encoders.toHex secret.ssalt),
      .bool secret.forceExpiration, .uint32 secret.gAuthSteps]

structure Directory where
  accounts : Table String AccountRow
  applications : Table String ApplicationRow
  /-- The description of each attribute. -/
  attribs : Table ApplicationAttrib String
  /-- Account and application. -/
  applicationManagers : Links (String × String)
  /-- Account and application. -/
  applicationUsers : Links (String × String)
  secretsIndexs : Table PassIndex SecretIndex
  accountActivationTokens : Table String String
  accountSecrets : Table (String × PassIndex) SecretRow
  groups : Table String String
  /-- Group and account. -/
  groupsAccounts : Links (String × String)
  attribsGroups : Links (ApplicationAttrib × String)
  attribsAccounts : Links (ApplicationAttrib × String)

/-- A statement that is sent while the results of another one are still held does not get the
database's lock. -/
def Connector.held (_ : Connector) : Connector := ⟨false, false⟩

namespace Directory

def empty : Directory := ⟨∅, ∅, ∅, ∅, ∅, ∅, ∅, ∅, ∅, ∅, ∅, ∅⟩

/-- One changing statement: whether it was executed, and the database after it. -/
def query (db : Directory) (sql : Connector) (change : Directory → Option Directory) : Bool × Directory :=
  if sql.executes then
    match change db with
    | some next => (true, next)
    | none => (false, db)
  else (false, db)

/-- The `&&` of two statements. -/
def andThen (first : Bool × Directory) (next : Directory → Bool × Directory) : Bool × Directory :=
  if first.1 then next first.2 else first

theorem query_done {db next : Directory} {sql : Connector} {change : Directory → Option Directory}
    (executes : sql.executes = true) (changed : change db = some next) : db.query sql change = (true, next) := by
  simp [query, executes, changed]

theorem query_refused {db : Directory} {sql : Connector} {change : Directory → Option Directory}
    (refused : sql.executes = true → change db = none) : db.query sql change = (false, db) := by
  unfold query
  split
  · rename_i executes
    rw [refused executes]
  · rfl

/-- A statement that no constraint refuses. -/
theorem query_total {db next : Directory} {change : Directory → Option Directory} (sql : Connector)
    (total : change db = some next) : db.query sql change = (sql.executes, if sql.executes then next else db) := by
  cases executes : sql.executes with
  | false => rw [query_refused fun executed => absurd executed (by simp [executes])]; rfl
  | true => rw [query_done executes total]; rfl

/-! ## INSERT -/

def insertAccount (userName : String) (row : AccountRow) (db : Directory) : Option Directory :=
  (db.accounts.insertRow userName row).map fun accounts => { db with accounts }

def insertActivationToken (userName confirmationToken : String) (db : Directory) : Option Directory :=
  if (db.accounts.get userName).isSome then
    (db.accountActivationTokens.insertRow userName confirmationToken).map fun accountActivationTokens =>
      { db with accountActivationTokens }
  else none

def insertSecret (userName : String) (index : PassIndex) (secret : Secret) (db : Directory) : Option Directory :=
  if (db.accounts.get userName).isSome ∧ (db.secretsIndexs.get index).isSome then
    (db.accountSecrets.insertRow (userName, index) (.ofSecret userName index secret)).map fun accountSecrets =>
      { db with accountSecrets }
  else none

def insertGroup (groupName groupDescription : String) (db : Directory) : Option Directory :=
  (db.groups.insertRow groupName groupDescription).map fun groups => { db with groups }

def insertGroupAccount (groupName userName : String) (db : Directory) : Option Directory :=
  if (db.groups.get groupName).isSome ∧ (db.accounts.get userName).isSome then
    (db.groupsAccounts.insertRow (groupName, userName) ()).map fun groupsAccounts => { db with groupsAccounts }
  else none

def insertAttribGroup (attrib : ApplicationAttrib) (groupName : String) (db : Directory) : Option Directory :=
  if (db.attribs.get attrib).isSome ∧ (db.groups.get groupName).isSome then
    (db.attribsGroups.insertRow (attrib, groupName) ()).map fun attribsGroups => { db with attribsGroups }
  else none

def insertAttribAccount (attrib : ApplicationAttrib) (userName : String) (db : Directory) : Option Directory :=
  if (db.attribs.get attrib).isSome ∧ (db.accounts.get userName).isSome then
    (db.attribsAccounts.insertRow (attrib, userName) ()).map fun attribsAccounts => { db with attribsAccounts }
  else none

def insertAttrib (attrib : ApplicationAttrib) (attribDescription : String) (db : Directory) : Option Directory :=
  if (db.applications.get attrib.appName).isSome then
    (db.attribs.insertRow attrib attribDescription).map fun attribs => { db with attribs }
  else none

def insertApplication (appName : String) (row : ApplicationRow) (db : Directory) : Option Directory :=
  if (db.accounts.get row.f_appCreator).isSome then
    (db.applications.insertRow appName row).map fun applications => { db with applications }
  else none

def insertApplicationUser (userName appName : String) (db : Directory) : Option Directory :=
  if (db.accounts.get userName).isSome ∧ (db.applications.get appName).isSome then
    (db.applicationUsers.insertRow (userName, appName) ()).map fun applicationUsers => { db with applicationUsers }
  else none

def insertApplicationManager (userName appName : String) (db : Directory) : Option Directory :=
  if (db.accounts.get userName).isSome ∧ (db.applications.get appName).isSome then
    (db.applicationManagers.insertRow (userName, appName) ()).map fun applicationManagers =>
      { db with applicationManagers }
  else none

/-! ## UPDATE -/

def updateAccount (userName : String) (change : AccountRow → AccountRow) (db : Directory) : Option Directory :=
  some { db with accounts := db.accounts.updateRow userName change }

theorem query_updateAccount (db : Directory) (sql : Connector) (userName : String) (change : AccountRow → AccountRow) :
    db.query sql (updateAccount userName change) =
      (sql.executes, if sql.executes then { db with accounts := db.accounts.updateRow userName change } else db) :=
  query_total sql rfl

def updateApplication (appName : String) (change : ApplicationRow → ApplicationRow) (db : Directory) : Option Directory :=
  some { db with applications := db.applications.updateRow appName change }

def updateAttrib (attrib : ApplicationAttrib) (attribDescription : String) (db : Directory) : Option Directory :=
  some { db with attribs := db.attribs.updateRow attrib fun _ => attribDescription }

def updateGroup (groupName groupDescription : String) (db : Directory) : Option Directory :=
  some { db with groups := db.groups.updateRow groupName fun _ => groupDescription }

def updateSecret (userName : String) (index : PassIndex) (change : SecretRow → SecretRow) (db : Directory) :
    Option Directory :=
  some { db with accountSecrets := db.accountSecrets.updateRow (userName, index) change }

/-! ## DELETE -/

def deleteAttribs (gone : ApplicationAttrib → Bool) (db : Directory) : Directory :=
  { db with
    attribs := db.attribs.deleteWhere fun attrib _ => gone attrib
    attribsGroups := db.attribsGroups.deleteWhere fun link _ => gone link.1
    attribsAccounts := db.attribsAccounts.deleteWhere fun link _ => gone link.1 }

def deleteApplications (gone : String → Bool) (db : Directory) : Directory :=
  { db.deleteAttribs fun attrib => gone attrib.appName with
    applications := db.applications.deleteWhere fun appName _ => gone appName
    applicationManagers := db.applicationManagers.deleteWhere fun link _ => gone link.2
    applicationUsers := db.applicationUsers.deleteWhere fun link _ => gone link.2 }

/-- The applications that an account created. -/
def createdBy (db : Directory) (userName appName : String) : Bool :=
  match db.applications.get appName with
  | some row => row.f_appCreator = userName
  | none => false

def deleteAccount (userName : String) (db : Directory) : Directory :=
  let rest := db.deleteApplications (db.createdBy userName)
  { rest with
    accounts := rest.accounts.erase userName
    applicationManagers := rest.applicationManagers.deleteWhere fun link _ => link.1 = userName
    applicationUsers := rest.applicationUsers.deleteWhere fun link _ => link.1 = userName
    accountActivationTokens := rest.accountActivationTokens.erase userName
    accountSecrets := rest.accountSecrets.deleteWhere fun key _ => key.1 = userName
    groupsAccounts := rest.groupsAccounts.deleteWhere fun link _ => link.2 = userName
    attribsAccounts := rest.attribsAccounts.deleteWhere fun link _ => link.2 = userName }

def deleteGroup (groupName : String) (db : Directory) : Directory :=
  { db with
    groups := db.groups.erase groupName
    groupsAccounts := db.groupsAccounts.deleteWhere fun link _ => link.1 = groupName
    attribsGroups := db.attribsGroups.deleteWhere fun link _ => link.2 = groupName }

def deleteSecret (userName : String) (index : PassIndex) (db : Directory) : Directory :=
  { db with accountSecrets := db.accountSecrets.erase (userName, index) }

def deleteGroupsOfAccount (userName : String) (db : Directory) : Directory :=
  { db with groupsAccounts := db.groupsAccounts.deleteWhere fun link _ => link.2 = userName }

end Directory

end Mantids.Auth
