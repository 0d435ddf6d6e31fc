import Mantids.Auth.Rights

/-! The changes of an account that take several statements: what is left when one of them is refused. -/

set_option autoImplicit false

namespace Mantids.Auth

open Library

/-- Secrets whose salt has its four bytes. -/
abbrev SaltedSecret := { secret : Secret // secret.ssalt.length = 4 }

/-- A change, with what the engine makes of each of its statements. -/
inductive AccountChange where
  | add (sql : Directory.AddConnectors) (now : Time) (confirmationToken : String) (secretData : SaltedSecret)
    (accountDetails : AccountDetails) (expirationDate : Time) (accountAttribs : AccountAttribs)
    (sCreatorAccountName : String)
  | secret (deletes inserts : Connector) (passwordData : SaltedSecret) (passIndex : PassIndex)
  | groupSet (deletes : Connector) (inserts : String → Connector) (groupSet : OrderedSet String)

namespace Directory

def change (db : Directory) (sAccountName : String) : AccountChange → Bool × Directory
  | .add sql now confirmationToken secretData accountDetails expirationDate accountAttribs sCreatorAccountName =>
    db.accountAdd sAccountName sql now confirmationToken secretData accountDetails expirationDate accountAttribs
      sCreatorAccountName
  | .secret deletes inserts passwordData passIndex =>
    db.accountChangeSecret sAccountName deletes inserts passwordData passIndex
  | .groupSet deletes inserts groupSet => db.accountChangeGroupSet sAccountName deletes inserts groupSet

/-! ## What a change must do -/

/-- The same rows in every table. -/
structure Same (before after : Directory) : Prop where
  accounts : ∀ userName, after.accounts.get userName = before.accounts.get userName
  applications : ∀ appName, after.applications.get appName = before.applications.get appName
  attribs : ∀ attrib, after.attribs.get attrib = before.attribs.get attrib
  applicationManagers : ∀ link, after.applicationManagers.linked link = before.applicationManagers.linked link
  applicationUsers : ∀ link, after.applicationUsers.linked link = before.applicationUsers.linked link
  secretsIndexs : ∀ index, after.secretsIndexs.get index = before.secretsIndexs.get index
  accountActivationTokens : ∀ userName,
    after.accountActivationTokens.get userName = before.accountActivationTokens.get userName
  accountSecrets : ∀ key, after.accountSecrets.get key = before.accountSecrets.get key
  groups : ∀ groupName, after.groups.get groupName = before.groups.get groupName
  groupsAccounts : ∀ link, after.groupsAccounts.linked link = before.groupsAccounts.linked link
  attribsGroups : ∀ link, after.attribsGroups.linked link = before.attribsGroups.linked link
  attribsAccounts : ∀ link, after.attribsAccounts.linked link = before.attribsAccounts.linked link

theorem Same.refl (db : Directory) : Same db db := by
  constructor <;> intro <;> rfl

/-- The row of the account is inserted. -/
def AddStarts (db : Directory) (sAccountName : String) (sql : AddConnectors) : Prop :=
  sql.account.executes = true ∧ db.accounts.get sAccountName = none

/-- The token and the secret are inserted after it. -/
def AddEnds (db : Directory) (sAccountName : String) (sql : AddConnectors) : Prop :=
  (sql.token.executes = true ∧ db.accountActivationTokens.get sAccountName = none) ∧
    sql.secret.executes = true ∧ (db.secretsIndexs.get 0).isSome = true ∧ db.accountSecrets.get (sAccountName, 0) = none

/-- The new secret is inserted, where the DELETE before it did what it could. -/
def SecretInserted (db : Directory) (sAccountName : String) (deletes inserts : Connector) (passIndex : PassIndex) :
    Prop :=
  inserts.executes = true ∧ (db.accounts.get sAccountName).isSome = true ∧ (db.secretsIndexs.get passIndex).isSome = true ∧
    (deletes.executes = true ∨ db.accountSecrets.get (sAccountName, passIndex) = none)

def groupAccepted (db : Directory) (sAccountName : String) (inserts : String → Connector) (groupName : String) : Bool :=
  (inserts groupName).executes && db.groupExist groupName && db.accountExist sAccountName

/-- The groups before the first one that is refused. -/
def acceptedGroups (db : Directory) (sAccountName : String) (inserts : String → Connector) (groupSet : OrderedSet String) :
    List String :=
  groupSet.elements.takeWhile (db.groupAccepted sAccountName inserts)

def Completes (db : Directory) (sAccountName : String) : AccountChange → Prop
  | .add sql _ _ _ accountDetails _ _ sCreatorAccountName =>
    db.AddStarts sAccountName sql →
      db.AddEnds sAccountName sql ∧ (sCreatorAccountName = "" ∨ sCreatorAccountName = accountDetails.sExtraData)
  | .secret deletes inserts _ passIndex =>
    deletes.executes = true → (db.accountSecrets.get (sAccountName, passIndex)).isSome →
      db.SecretInserted sAccountName deletes inserts passIndex
  | .groupSet deletes inserts groupSet =>
    deletes.executes = true → db.acceptedGroups sAccountName inserts groupSet = groupSet.elements ∨
      ∀ groupName, groupName ∈ db.acceptedGroups sAccountName inserts groupSet ↔ groupName ∈ db.accountGroups sAccountName

/-! ## Adding an account -/

section
variable {db : Directory} {sAccountName confirmationToken sCreatorAccountName : String} {sql : AddConnectors} {now : Time}
  {secretData : SaltedSecret} {accountDetails : AccountDetails} {expirationDate : Time} {accountAttribs : AccountAttribs}

/-- The row as it is bound. -/
def addedRow (now : Time) (accountDetails : AccountDetails) (expirationDate : Time) (accountAttribs : AccountAttribs)
    (sCreatorAccountName : String) : AccountRow :=
  ⟨accountDetails.sGivenName, accountDetails.sLastName, accountDetails.sEmail, accountDetails.sDescription,
    accountDetails.sExtraData, accountAttribs.superuser,
    if sCreatorAccountName.isEmpty then none else some accountDetails.sExtraData, expirationDate, now,
    accountAttribs.enabled, accountAttribs.confirmed⟩

theorem accountAdd_refused (refused : ¬db.AddStarts sAccountName sql) :
    db.accountAdd sAccountName sql now confirmationToken secretData accountDetails expirationDate accountAttribs
      sCreatorAccountName = (false, db) := by
  have first : db.query sql.account (insertAccount sAccountName
      (addedRow now accountDetails expirationDate accountAttribs sCreatorAccountName)) = (false, db) := by
    apply query_refused
    intro executes
    rw [insertAccount, insertRow_used _ fun fresh => refused ⟨executes, fresh⟩]
    rfl
  unfold addedRow at first
  simp only [accountAdd, first, andThen, Bool.false_eq_true, if_false]

/-- The database with the account's row alone. -/
def started (db : Directory) (sAccountName : String) (row : AccountRow) : Directory :=
  { db with accounts := db.accounts.insert sAccountName row }

theorem accountAdd_started (starts : db.AddStarts sAccountName sql) :
    db.accountAdd sAccountName sql now confirmationToken secretData accountDetails expirationDate accountAttribs
      sCreatorAccountName =
      andThen ((db.started sAccountName
          (addedRow now accountDetails expirationDate accountAttribs sCreatorAccountName)).query sql.token
          (insertActivationToken sAccountName confirmationToken))
        fun db => db.query sql.secret (insertSecret sAccountName 0 secretData) := by
  have first : db.query sql.account (insertAccount sAccountName
        (addedRow now accountDetails expirationDate accountAttribs sCreatorAccountName)) =
      (true, db.started sAccountName
        (addedRow now accountDetails expirationDate accountAttribs sCreatorAccountName)) := by
    apply query_done starts.1
    rw [insertAccount, insertRow_fresh _ starts.2]
    rfl
  unfold addedRow at first ⊢
  simp only [accountAdd, first, andThen, if_true]

theorem account_started (row : AccountRow) : (db.started sAccountName row).accounts.get sAccountName = some row :=
  get_insert_self db.accounts sAccountName row

theorem insertActivationToken_done (account : db.accounts.get sAccountName ≠ none)
    (fresh : db.accountActivationTokens.get sAccountName = none) :
    insertActivationToken sAccountName confirmationToken db =
      some { db with
        accountActivationTokens := db.accountActivationTokens.insert sAccountName confirmationToken } := by
  rw [insertActivationToken, if_pos (Option.isSome_iff_ne_none.mpr account), insertRow_fresh _ fresh]
  rfl

theorem insertActivationToken_used (used : db.accountActivationTokens.get sAccountName ≠ none) :
    insertActivationToken sAccountName confirmationToken db = none := by
  rw [insertActivationToken, insertRow_used _ used]
  exact ite_self _

theorem insertSecret_done {passIndex : PassIndex} {secret : Secret} (account : db.accounts.get sAccountName ≠ none)
    (known : (db.secretsIndexs.get passIndex).isSome = true)
    (unused : db.accountSecrets.get (sAccountName, passIndex) = none) :
    insertSecret sAccountName passIndex secret db =
      some { db with
        accountSecrets := db.accountSecrets.insert (sAccountName, passIndex) (.ofSecret sAccountName passIndex secret) } := by
  rw [insertSecret, if_pos ⟨Option.isSome_iff_ne_none.mpr account, known⟩, insertRow_fresh _ unused]
  rfl

theorem insertSecret_refused {passIndex : PassIndex} {secret : Secret}
    (refused : ¬((db.accounts.get sAccountName).isSome = true ∧ (db.secretsIndexs.get passIndex).isSome = true ∧
      db.accountSecrets.get (sAccountName, passIndex) = none)) :
    insertSecret sAccountName passIndex secret db = none := by
  unfold insertSecret
  split
  · rename_i known
    rw [insertRow_used _ fun unused => refused ⟨known.1, known.2, unused⟩]
    rfl
  · rfl

/-- The account stays where a later INSERT is refused. -/
theorem accountAdd_cut (starts : db.AddStarts sAccountName sql) (cut : ¬db.AddEnds sAccountName sql) :
    let added := db.accountAdd sAccountName sql now confirmationToken secretData accountDetails expirationDate
      accountAttribs sCreatorAccountName
    added.1 = false ∧ added.2.accounts.get sAccountName ≠ none := by
  dsimp only
  rw [accountAdd_started starts]
  generalize addedRow now accountDetails expirationDate accountAttribs sCreatorAccountName = row
  have stays : (db.started sAccountName row).accounts.get sAccountName ≠ none := by
    rw [account_started]
    exact Option.some_ne_none row
  by_cases token : sql.token.executes = true ∧ db.accountActivationTokens.get sAccountName = none
  case neg =>
    have second : (db.started sAccountName row).query sql.token (insertActivationToken sAccountName confirmationToken) =
        (false, db.started sAccountName row) :=
      query_refused fun executes => insertActivationToken_used fun fresh => token ⟨executes, fresh⟩
    rw [second]
    exact ⟨rfl, stays⟩
  case pos =>
    have third : ∀ accountActivationTokens,
        query { db.started sAccountName row with accountActivationTokens } sql.secret
            (insertSecret sAccountName 0 secretData) =
          (false, { db.started sAccountName row with accountActivationTokens }) := fun _ =>
      query_refused fun executes => insertSecret_refused fun inserted => cut ⟨token, executes, inserted.2⟩
    rw [query_done token.1 (insertActivationToken_done stays token.2), andThen, if_pos rfl, third]
    exact ⟨rfl, stays⟩

theorem accountAdd_done (starts : db.AddStarts sAccountName sql) (ends : db.AddEnds sAccountName sql) :
    db.accountAdd sAccountName sql now confirmationToken secretData accountDetails expirationDate accountAttribs
      sCreatorAccountName =
      (true, { db with
        accounts := db.accounts.insert sAccountName
          (addedRow now accountDetails expirationDate accountAttribs sCreatorAccountName)
        accountActivationTokens := db.accountActivationTokens.insert sAccountName confirmationToken
        accountSecrets := db.accountSecrets.insert (sAccountName, 0) (.ofSecret sAccountName 0 secretData) }) := by
  obtain ⟨⟨executes, fresh⟩, executes', known, unused⟩ := ends
  rw [accountAdd_started starts]
  generalize addedRow now accountDetails expirationDate accountAttribs sCreatorAccountName = row
  have stays : (db.started sAccountName row).accounts.get sAccountName ≠ none := by
    rw [account_started]
    exact Option.some_ne_none row
  rw [query_done executes (insertActivationToken_done stays fresh), andThen, if_pos rfl]
  exact query_done executes' (insertSecret_done stays known unused)

end

/-! ## Changing a secret -/

section
variable (db : Directory) (sAccountName : String) (deletes inserts : Connector)

end

/-! ## Changing the groups -/

section
variable {db : Directory} {sAccountName : String} {inserts : String → Connector}

end

end Directory

end Mantids.Auth
