import Mantids.Auth.Rights

/-! The lists of accounts, groups, applications and attributes, and the searches over them
(`manager_db_accounts.cpp`, `manager_db_groups.cpp`, `manager_db_application.cpp`,
`manager_db_attributes.cpp`): the queries as data, run by an ideal engine. -/

set_option autoImplicit false

namespace Mantids.Auth

open Library

/-! ## Queries -/

/-- The columns that a query names. -/
inductive Column where
  | userName
  | givenName
  | lastName
  | email
  | description
  | extraData
  | superuser
  | creator
  | expiration
  | lastLogin
  | enabled
  | confirmed
  | appName
  | f_appCreator
  | appDescription
  | appKey
  | f_appName
  | attribName
  | attribDescription
  | groupName
  | groupDescription
  | applicationName
  deriving DecidableEq

inductive TableName where
  | accounts
  | applications
  | attribs
  | groups

def TableName.columns : TableName → List Column
  | accounts =>
    [.userName, .givenName, .lastName, .email, .description, .extraData, .superuser, .creator, .expiration, .lastLogin,
      .enabled, .confirmed]
  | applications => [.appName, .f_appCreator, .appDescription, .appKey]
  | attribs => [.f_appName, .attribName, .attribDescription]
  | groups => [.groupName, .groupDescription]

/-- A SELECT over one table, with what is bound to it. -/
structure Query where
  columns : List Column
  table : TableName
  /-- `column = value` -/
  equal : Option (Column × String)
  /-- Any of the columns `LIKE` the pattern. -/
  like : Option (List Column × String)
  limit : Nat
  offset : Nat

/-- The columns that the engine looks for when it prepares the query. -/
def Query.named (query : Query) : List Column :=
  query.columns ++ (query.equal.map Prod.fst).toList ++ (query.like.map Prod.fst).getD []

namespace Directory

def accountValue (row : String × AccountRow) : Column → Value
  | .userName => .string row.1
  | .givenName => .string row.2.givenName
  | .lastName => .string row.2.lastName
  | .email => .string row.2.email
  | .description => .string row.2.description
  | .extraData => .string row.2.extraData
  | .superuser => .bool row.2.superuser
  | .creator => row.2.creator.elim .null .string
  | .expiration => .datetime row.2.expiration
  | .lastLogin => .datetime row.2.lastLogin
  | .enabled => .bool row.2.enabled
  | .confirmed => .bool row.2.confirmed
  | _ => .null

def applicationValue (row : String × ApplicationRow) : Column → Value
  | .appName => .string row.1
  | .f_appCreator => .string row.2.f_appCreator
  | .appDescription => .string row.2.appDescription
  | .appKey => .string row.2.appKey
  | _ => .null

def attribValue (row : ApplicationAttrib × String) : Column → Value
  | .f_appName => .string row.1.appName
  | .attribName => .string row.1.attribName
  | .attribDescription => .string row.2
  | _ => .null

def groupValue (row : String × String) : Column → Value
  | .groupName => .string row.1
  | .groupDescription => .string row.2
  | _ => .null

def rows (db : Directory) : TableName → List (Column → Value)
  | .accounts => (db.accounts.select fun _ _ => true).map accountValue
  | .applications => (db.applications.select fun _ _ => true).map applicationValue
  | .attribs => (db.attribs.select fun _ _ => true).map attribValue
  | .groups => (db.groups.select fun _ _ => true).map groupValue

section
variable (likes : (pattern text : String) → Bool)

def satisfies (query : Query) (row : Column → Value) : Bool :=
  (query.equal.all fun equal => row equal.1 = .string equal.2) &&
    query.like.all fun like => like.1.any fun column => likes like.2 (row column).getString

/-- A query fails when it is prepared where a column is not of its table. -/
def qSelect (db : Directory) (query : Query) : Option (List (List Value)) :=
  if query.named.all fun column => column ∈ query.table.columns then
    some (page query.limit query.offset (((db.rows query.table).filter (satisfies likes query)).map fun row =>
      query.columns.map row))
  else none

/-- The rows that the loop over `step()` meets. -/
def results (db : Directory) (query : Query) : List (List Value) := (db.qSelect likes query).getD []

/-! ## Lists and searches -/

/-- The words anywhere in a text. -/
def searchPattern (sSearchWords : String) : String := "%" ++ sSearchWords ++ "%"

def searched (columns : List Column) (sSearchWords : String) : Option (List Column × String) :=
  if sSearchWords.isEmpty then none else some (columns, searchPattern sSearchWords)

structure AccountSimpleDetails where
  sAccountName : String
  sGivenName : String
  sLastName : String
  sEmail : String
  sDescription : String
  enabled : Bool
  confirmed : Bool
  superuser : Bool
  expired : Bool

structure GroupSimpleDetails where
  sGroupName : String
  sDescription : String

structure ApplicationSimpleDetails where
  sApplicationName : String
  sAppCreator : String
  sDescription : String

structure AttributeSimpleDetails where
  sAttributeName : String
  sDescription : String

variable (db : Directory)

def accountsBasicInfoSearch (now : Time) (sSearchWords : String) (limit offset : Nat) : List AccountSimpleDetails :=
  (db.results likes
    { columns := [.userName, .givenName, .lastName, .email, .description, .superuser, .enabled, .expiration, .confirmed]
      table := .accounts
      equal := none
      like := searched [.userName, .givenName, .lastName, .email, .description] sSearchWords
      limit := limit
      offset := offset }).map fun values =>
    let expiration := (values.getD 7 .null).getDatetime
    { sAccountName := (values.getD 0 .null).getString
      sGivenName := (values.getD 1 .null).getString
      sLastName := (values.getD 2 .null).getString
      sEmail := (values.getD 3 .null).getString
      sDescription := (values.getD 4 .null).getString
      superuser := (values.getD 5 .null).getBool
      enabled := (values.getD 6 .null).getBool
      expired := expiration != 0 && decide (expiration < now)
      confirmed := (values.getD 8 .null).getBool }

def groupsBasicInfoSearch (sSearchWords : String) (limit offset : Nat) : List GroupSimpleDetails :=
  (db.results likes
    { columns := [.groupName, .groupDescription]
      table := .groups
      equal := none
      like := searched [.groupName, .groupDescription] sSearchWords
      limit := limit
      offset := offset }).map fun values =>
    { sGroupName := (values.getD 0 .null).getString
      sDescription := (values.getD 1 .null).getString }

def applicationsBasicInfoSearch (sSearchWords : String) (limit offset : Nat) : List ApplicationSimpleDetails :=
  (db.results likes
    { columns := [.appName, .f_appCreator, .appDescription]
      table := .applications
      equal := none
      like := searched [.appName, .appDescription] sSearchWords
      limit := limit
      offset := offset }).map fun values =>
    { sApplicationName := (values.getD 0 .null).getString
      sAppCreator := (values.getD 1 .null).getString
      sDescription := (values.getD 2 .null).getString }

/-- The columns are those of the attributes, the table is that of the applications. -/
def attribsBasicInfoSearch (appName sSearchWords : String) (limit offset : Nat) : List AttributeSimpleDetails :=
  (db.results likes
    { columns := [.attribName, .attribDescription]
      table := .applications
      equal := some (.f_appName, appName)
      like := searched [.applicationName, .appDescription] sSearchWords
      limit := limit
      offset := offset }).map fun values =>
    { sAttributeName := (values.getD 0 .null).getString
      sDescription := (values.getD 1 .null).getString }

end

end Directory

end Mantids.Auth
