import Mantids.Auth.DirectoryAccounts

/-! What the manager does with groups, attributes and applications (`manager_db_groups.cpp`,
`manager_db_attributes.cpp`, `manager_db_application.cpp`), and the rights of an account (`manager.cpp`). -/

set_option autoImplicit false

namespace Mantids.Auth

open Library

namespace Directory

/-! ## Groups -/

section
variable (db : Directory) (sql : Connector) (sGroupName : String)

def groupAdd (groupDescription : String) : Bool × Directory := db.query sql (insertGroup sGroupName groupDescription)

def groupRemove : Bool × Directory := db.query sql fun db => some (db.deleteGroup sGroupName)

def groupExist : Bool := (db.groups.get sGroupName).isSome

def groupAccountAdd (sAccountName : String) : Bool × Directory :=
  db.query sql (insertGroupAccount sGroupName sAccountName)

def groupAccountRemove (sAccountName : String) : Bool × Directory :=
  db.query sql fun db =>
    some { db with groupsAccounts := db.groupsAccounts.deleteWhere fun link _ => link.1 = sGroupName ∧ link.2 = sAccountName }

def groupChangeDescription (groupDescription : String) : Bool × Directory :=
  db.query sql (updateGroup sGroupName groupDescription)

def groupValidateAttribute (attrib : ApplicationAttrib) : Bool :=
  !(db.attribsGroups.links fun link =>
    link.1.attribName = attrib.attribName ∧ link.1.appName = attrib.appName ∧ link.2 = sGroupName).isEmpty

def groupDescription : String := (db.groups.get sGroupName).getD ""

def groupsList : OrderedSet String := .ofList ((db.groups.select fun _ _ => true).map Prod.fst)

def groupAttribs : OrderedSet ApplicationAttrib :=
  .ofList ((db.attribsGroups.links fun link => link.2 = sGroupName).map Prod.fst)

def groupAccounts : OrderedSet String :=
  .ofList ((db.groupsAccounts.links fun link => link.1 = sGroupName).map Prod.snd)

end

/-! ## Attributes -/

section
variable (db : Directory) (sql : Connector) (applicationAttrib : ApplicationAttrib)

def attribAdd (sAttribDescription : String) : Bool × Directory :=
  db.query sql (insertAttrib applicationAttrib sAttribDescription)

def attribRemove : Bool × Directory := db.query sql fun db => some (db.deleteAttribs fun attrib => attrib = applicationAttrib)

def attribExist : Bool := (db.attribs.get applicationAttrib).isSome

def attribGroupAdd (sGroupName : String) : Bool × Directory := db.query sql (insertAttribGroup applicationAttrib sGroupName)

def attribGroupRemove (sGroupName : String) : Bool × Directory :=
  db.query sql fun db =>
    some { db with
      attribsGroups := db.attribsGroups.deleteWhere fun link _ => link.1 = applicationAttrib ∧ link.2 = sGroupName }

def attribAccountAdd (sAccountName : String) : Bool × Directory :=
  db.query sql (insertAttribAccount applicationAttrib sAccountName)

def attribAccountRemove (sAccountName : String) : Bool × Directory :=
  db.query sql fun db =>
    some { db with
      attribsAccounts := db.attribsAccounts.deleteWhere fun link _ => link.1 = applicationAttrib ∧ link.2 = sAccountName }

def attribChangeDescription (attribDescription : String) : Bool × Directory :=
  db.query sql (updateAttrib applicationAttrib attribDescription)

def attribDescription : String := (db.attribs.get applicationAttrib).getD ""

/-- The attributes of one application, or of all of them when no name is given. -/
def attribsList (applicationName : String) : OrderedSet ApplicationAttrib :=
  .ofList ((db.attribs.select fun attrib _ => applicationName.isEmpty || attrib.appName = applicationName).map Prod.fst)

def attribGroups : OrderedSet String :=
  .ofList ((db.attribsGroups.links fun link => link.1 = applicationAttrib).map Prod.snd)

def attribAccounts : OrderedSet String :=
  .ofList ((db.attribsAccounts.links fun link => link.1 = applicationAttrib).map Prod.snd)

end

/-! ## Applications -/

section
variable (db : Directory) (sql : Connector) (appName : String)

/-- The key is stored obfuscated. -/
def applicationAdd (toBase64Obf : String → String) (applicationDescription sAppKey sOwnerAccountName : String) :
    Bool × Directory :=
  db.query sql (insertApplication appName
    { f_appCreator := sOwnerAccountName
      appDescription := applicationDescription
      appKey := toBase64Obf sAppKey })

def applicationRemove : Bool × Directory := db.query sql fun db => some (db.deleteApplications fun name => name = appName)

def applicationExist : Bool := (db.applications.get appName).isSome

def applicationDescription : String := ((db.applications.get appName).map ApplicationRow.appDescription).getD ""

def applicationChangeKey (toBase64Obf : String → String) (appKey : String) : Bool × Directory :=
  db.query sql (updateApplication appName fun row => { row with appKey := toBase64Obf appKey })

def applicationChangeDescription (applicationDescription : String) : Bool × Directory :=
  db.query sql (updateApplication appName fun row => { row with appDescription := applicationDescription })

def applicationList : OrderedSet String := .ofList ((db.applications.select fun _ _ => true).map Prod.fst)

def applicationValidateOwner (sAccountName : String) : Bool := db.applicationManagers.linked (sAccountName, appName)

def applicationValidateAccount (sAccountName : String) : Bool := db.applicationUsers.linked (sAccountName, appName)

def applicationOwners : OrderedSet String :=
  .ofList ((db.applicationManagers.links fun link => link.2 = appName).map Prod.fst)

def applicationAccounts : OrderedSet String :=
  .ofList ((db.applicationUsers.links fun link => link.2 = appName).map Prod.fst)

def accountApplications (sAccountName : String) : OrderedSet String :=
  .ofList ((db.applicationUsers.links fun link => link.1 = sAccountName).map Prod.snd)

def applicationAccountAdd (sAccountName : String) : Bool × Directory :=
  db.query sql (insertApplicationUser sAccountName appName)

def applicationAccountRemove (sAccountName : String) : Bool × Directory :=
  db.query sql fun db =>
    some { db with
      applicationUsers := db.applicationUsers.deleteWhere fun link _ => link.2 = appName ∧ link.1 = sAccountName }

def applicationOwnerAdd (sAccountName : String) : Bool × Directory :=
  db.query sql (insertApplicationManager sAccountName appName)

def applicationOwnerRemove (sAccountName : String) : Bool × Directory :=
  db.query sql fun db =>
    some { db with
      applicationManagers := db.applicationManagers.deleteWhere fun link _ => link.2 = appName ∧ link.1 = sAccountName }

end

/-! ## The rights of an account -/

section
variable (db : Directory) (sAccountName : String)

def accountUsableAttribs : OrderedSet ApplicationAttrib :=
  (db.accountGroups sAccountName).elements.foldl
    (fun x groupName => x.insertAll (db.groupAttribs groupName).elements)
    (OrderedSet.empty.insertAll (db.accountDirectAttribs sAccountName).elements)

def accountValidateAttribute (applicationAttrib : ApplicationAttrib) : Bool :=
  if db.accountValidateDirectAttribute sAccountName applicationAttrib then true
  else (db.accountGroups sAccountName).elements.any fun groupName => db.groupValidateAttribute groupName applicationAttrib

end

end Directory

end Mantids.Auth
