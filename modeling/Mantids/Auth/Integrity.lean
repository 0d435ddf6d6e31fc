import Mantids.Auth.QueryLocks
import Mantids.Auth.Rights
import Mantids.Library.ForeignKeys

/-! The references between the tables (`manager_db.cpp`) hold in every run of the operations, so that nothing is left of
what was removed. -/

set_option autoImplicit false

namespace Mantids.Auth

open Library Library.LockScopes Library.LockScopes.Program

/-- The foreign keys of the schema. -/
structure Referential (db : Directory) : Prop where
  appCreator : References db.applications (fun _ row => row.f_appCreator) db.accounts
  attribApp : References db.attribs (fun attrib _ => attrib.appName) db.applications
  managerAccount : References db.applicationManagers (fun link _ => link.1) db.accounts
  managedApplication : References db.applicationManagers (fun link _ => link.2) db.applications
  userAccount : References db.applicationUsers (fun link _ => link.1) db.accounts
  usedApplication : References db.applicationUsers (fun link _ => link.2) db.applications
  tokenAccount : References db.accountActivationTokens (fun userName _ => userName) db.accounts
  secretAccount : References db.accountSecrets (fun key _ => key.1) db.accounts
  secretIndex : References db.accountSecrets (fun key _ => key.2) db.secretsIndexs
  memberGroup : References db.groupsAccounts (fun link _ => link.1) db.groups
  memberAccount : References db.groupsAccounts (fun link _ => link.2) db.accounts
  groupAttrib : References db.attribsGroups (fun link _ => link.1) db.attribs
  attribGroup : References db.attribsGroups (fun link _ => link.2) db.groups
  accountAttrib : References db.attribsAccounts (fun link _ => link.1) db.attribs
  attribAccount : References db.attribsAccounts (fun link _ => link.2) db.accounts

namespace Referential
variable {db next : Directory}

/-! ## INSERT and UPDATE -/

/-- The tables that refer to the accounts do not lose one. -/
theorem growAccounts {accounts : Table String AccountRow} (holds : Referential db)
    (kept : ∀ a, (db.accounts.get a).isSome = true → (accounts.get a).isSome = true) :
    Referential { db with accounts } :=
  { holds with
    appCreator := holds.appCreator.grow kept
    managerAccount := holds.managerAccount.grow kept
    userAccount := holds.userAccount.grow kept
    tokenAccount := holds.tokenAccount.grow kept
    secretAccount := holds.secretAccount.grow kept
    memberAccount := holds.memberAccount.grow kept
    attribAccount := holds.attribAccount.grow kept }

theorem growApplications {applications : Table String ApplicationRow} (holds : Referential db)
    (refers : References applications (fun _ row => row.f_appCreator) db.accounts)
    (kept : ∀ name, (db.applications.get name).isSome = true → (applications.get name).isSome = true) :
    Referential { db with applications } :=
  { holds with
    appCreator := refers
    attribApp := holds.attribApp.grow kept
    managedApplication := holds.managedApplication.grow kept
    usedApplication := holds.usedApplication.grow kept }

theorem growAttribs {attribs : Table ApplicationAttrib String} (holds : Referential db)
    (refers : References attribs (fun attrib _ => attrib.appName) db.applications)
    (kept : ∀ attrib, (db.attribs.get attrib).isSome = true → (attribs.get attrib).isSome = true) :
    Referential { db with attribs } :=
  { holds with
    attribApp := refers
    groupAttrib := holds.groupAttrib.grow kept
    accountAttrib := holds.accountAttrib.grow kept }

theorem growGroups {groups : Table String String} (holds : Referential db)
    (kept : ∀ group, (db.groups.get group).isSome = true → (groups.get group).isSome = true) :
    Referential { db with groups } :=
  { holds with
    memberGroup := holds.memberGroup.grow kept
    attribGroup := holds.attribGroup.grow kept }

theorem growIndexes {secretsIndexs : Table PassIndex SecretIndex} (holds : Referential db)
    (kept : ∀ index, (db.secretsIndexs.get index).isSome = true → (secretsIndexs.get index).isSome = true) :
    Referential { db with secretsIndexs } :=
  { holds with secretIndex := holds.secretIndex.grow kept }

/-! ## DELETE -/

theorem deleteAttribs (gone : ApplicationAttrib → Bool) (holds : Referential db) :
    Referential (db.deleteAttribs gone) :=
  { holds with
    attribApp := holds.attribApp.deleteWhere _
    groupAttrib := holds.groupAttrib.cascade fun _ _ found => (get_of_deleteWhere found).imp_right fun stays _ _ => stays
    attribGroup := holds.attribGroup.deleteWhere _
    accountAttrib :=
      holds.accountAttrib.cascade fun _ _ found => (get_of_deleteWhere found).imp_right fun stays _ _ => stays
    attribAccount := holds.attribAccount.deleteWhere _ }

theorem deleteApplications (gone : String → Bool) (holds : Referential db) :
    Referential (db.deleteApplications gone) :=
  { holds.deleteAttribs fun attrib => gone attrib.appName with
    appCreator := holds.appCreator.deleteWhere _
    attribApp := holds.attribApp.cascade fun _ _ found => (get_of_deleteWhere found).imp_right fun stays _ _ => stays
    managerAccount := holds.managerAccount.deleteWhere _
    managedApplication :=
      holds.managedApplication.cascade fun _ _ found => (get_of_deleteWhere found).imp_right fun stays _ _ => stays
    userAccount := holds.userAccount.deleteWhere _
    usedApplication :=
      holds.usedApplication.cascade fun _ _ found => (get_of_deleteWhere found).imp_right fun stays _ _ => stays }

theorem deleteGroup (group : String) (holds : Referential db) : Referential (db.deleteGroup group) :=
  { holds with
    memberGroup :=
      holds.memberGroup.cascadeErase fun _ _ found => (get_of_deleteWhere found).imp_right of_decide_eq_false
    memberAccount := holds.memberAccount.deleteWhere _
    groupAttrib := holds.groupAttrib.deleteWhere _
    attribGroup :=
      holds.attribGroup.cascadeErase fun _ _ found => (get_of_deleteWhere found).imp_right of_decide_eq_false }

theorem deleteSecretIndex (index : PassIndex) (holds : Referential db) :
    QueryScopes.deleteSecretIndex index db = some next → Referential next := by
  rintro ⟨⟩
  exact { holds with
    secretAccount := holds.secretAccount.deleteWhere _
    secretIndex :=
      holds.secretIndex.cascadeErase fun _ _ found => (get_of_deleteWhere found).imp_right of_decide_eq_false }

/-- The applications that the account has created go before the account. -/
theorem deleteAccount (a : String) (holds : Referential db) : Referential (db.deleteAccount a) := by
  have rest := holds.deleteApplications (db.createdBy a)
  have others : ∀ name row, (db.deleteApplications (db.createdBy a)).applications.get name = some row →
      (db.deleteApplications (db.createdBy a)).applications.get name = some row ∧ row.f_appCreator ≠ a := by
    intro name row found
    obtain ⟨stored, stays⟩ := get_of_deleteWhere found
    rw [Directory.createdBy, stored] at stays
    exact ⟨found, of_decide_eq_false stays⟩
  exact { rest with
    appCreator := rest.appCreator.cascadeErase others
    managerAccount :=
      rest.managerAccount.cascadeErase fun _ _ found => (get_of_deleteWhere found).imp_right of_decide_eq_false
    managedApplication := rest.managedApplication.deleteWhere _
    userAccount :=
      rest.userAccount.cascadeErase fun _ _ found => (get_of_deleteWhere found).imp_right of_decide_eq_false
    usedApplication := rest.usedApplication.deleteWhere _
    tokenAccount := rest.tokenAccount.cascadeErase fun _ _ found => get_of_erase found
    secretAccount :=
      rest.secretAccount.cascadeErase fun _ _ found => (get_of_deleteWhere found).imp_right of_decide_eq_false
    secretIndex := rest.secretIndex.deleteWhere _
    memberGroup := rest.memberGroup.deleteWhere _
    memberAccount :=
      rest.memberAccount.cascadeErase fun _ _ found => (get_of_deleteWhere found).imp_right of_decide_eq_false
    accountAttrib := rest.accountAttrib.deleteWhere _
    attribAccount :=
      rest.attribAccount.cascadeErase fun _ _ found => (get_of_deleteWhere found).imp_right of_decide_eq_false }

/-! ## Every statement -/

open Directory QueryScopes in
theorem sent {statement : Directory → Option Directory} (sent : Sent statement) (holds : Referential db)
    (done : statement db = some next) : Referential next := by
  cases sent
  case insertAccount a row =>
    obtain ⟨accounts, inserted, rfl⟩ := Option.map_eq_some_iff.mp done
    exact holds.growAccounts fun _ there => isSome_get_insertRow inserted there
  case updateAccount a change =>
    cases done
    exact holds.growAccounts fun other there => (isSome_get_updateRow _ a other change).trans there
  case deleteAccount a => cases done; exact holds.deleteAccount a
  case insertActivationToken a token =>
    obtain ⟨there, done⟩ := Option.ite_none_right_eq_some.mp done
    obtain ⟨tokens, inserted, rfl⟩ := Option.map_eq_some_iff.mp done
    exact { holds with tokenAccount := holds.tokenAccount.insertRow there inserted }
  case insertSecret a index secret =>
    obtain ⟨there, done⟩ := Option.ite_none_right_eq_some.mp done
    obtain ⟨secrets, inserted, rfl⟩ := Option.map_eq_some_iff.mp done
    exact { holds with
      secretAccount := holds.secretAccount.insertRow there.1 inserted
      secretIndex := holds.secretIndex.insertRow there.2 inserted }
  case updateSecret a index change =>
    cases done
    exact { holds with
      secretAccount := holds.secretAccount.updateRow fun _ _ => rfl
      secretIndex := holds.secretIndex.updateRow fun _ _ => rfl }
  case deleteSecret a index =>
    cases done
    exact { holds with
      secretAccount := holds.secretAccount.erase _
      secretIndex := holds.secretIndex.erase _ }
  case insertSecretIndex index description required =>
    obtain ⟨indexes, inserted, rfl⟩ := Option.map_eq_some_iff.mp done
    exact holds.growIndexes fun _ there => isSome_get_insertRow inserted there
  case updateSecretIndex index description required =>
    cases done
    exact holds.growIndexes fun other there => (isSome_get_updateRow _ index other _).trans there
  case deleteSecretIndex index => exact holds.deleteSecretIndex index done
  case insertLogin a index =>
    obtain ⟨-, same⟩ := Option.ite_none_right_eq_some.mp done
    cases same
    exact holds
  case insertApplication appName row =>
    obtain ⟨there, done⟩ := Option.ite_none_right_eq_some.mp done
    obtain ⟨applications, inserted, rfl⟩ := Option.map_eq_some_iff.mp done
    exact holds.growApplications (holds.appCreator.insertRow there inserted) fun _ there =>
      isSome_get_insertRow inserted there
  case updateApplication appName change creator =>
    cases done
    exact holds.growApplications (holds.appCreator.updateRow fun _ row => creator row) fun other there =>
      (isSome_get_updateRow _ appName other change).trans there
  case deleteApplications gone => cases done; exact holds.deleteApplications gone
  case insertApplicationUser a appName =>
    obtain ⟨there, done⟩ := Option.ite_none_right_eq_some.mp done
    obtain ⟨users, inserted, rfl⟩ := Option.map_eq_some_iff.mp done
    exact { holds with
      userAccount := holds.userAccount.insertRow there.1 inserted
      usedApplication := holds.usedApplication.insertRow there.2 inserted }
  case insertApplicationManager a appName =>
    obtain ⟨there, done⟩ := Option.ite_none_right_eq_some.mp done
    obtain ⟨managers, inserted, rfl⟩ := Option.map_eq_some_iff.mp done
    exact { holds with
      managerAccount := holds.managerAccount.insertRow there.1 inserted
      managedApplication := holds.managedApplication.insertRow there.2 inserted }
  case insertAttrib attrib description =>
    obtain ⟨there, done⟩ := Option.ite_none_right_eq_some.mp done
    obtain ⟨attribs, inserted, rfl⟩ := Option.map_eq_some_iff.mp done
    exact holds.growAttribs (holds.attribApp.insertRow there inserted) fun _ there =>
      isSome_get_insertRow inserted there
  case updateAttrib attrib description =>
    cases done
    exact holds.growAttribs (holds.attribApp.updateRow fun _ _ => rfl) fun other there =>
      (isSome_get_updateRow _ attrib other _).trans there
  case deleteAttribs gone => cases done; exact holds.deleteAttribs gone
  case insertAttribGroup attrib group =>
    obtain ⟨there, done⟩ := Option.ite_none_right_eq_some.mp done
    obtain ⟨links, inserted, rfl⟩ := Option.map_eq_some_iff.mp done
    exact { holds with
      groupAttrib := holds.groupAttrib.insertRow there.1 inserted
      attribGroup := holds.attribGroup.insertRow there.2 inserted }
  case insertAttribAccount attrib a =>
    obtain ⟨there, done⟩ := Option.ite_none_right_eq_some.mp done
    obtain ⟨links, inserted, rfl⟩ := Option.map_eq_some_iff.mp done
    exact { holds with
      accountAttrib := holds.accountAttrib.insertRow there.1 inserted
      attribAccount := holds.attribAccount.insertRow there.2 inserted }
  case insertGroup group description =>
    obtain ⟨groups, inserted, rfl⟩ := Option.map_eq_some_iff.mp done
    exact holds.growGroups fun _ there => isSome_get_insertRow inserted there
  case updateGroup group description =>
    cases done
    exact holds.growGroups fun other there => (isSome_get_updateRow _ group other _).trans there
  case deleteGroup group => cases done; exact holds.deleteGroup group
  case insertGroupAccount group a =>
    obtain ⟨there, done⟩ := Option.ite_none_right_eq_some.mp done
    obtain ⟨links, inserted, rfl⟩ := Option.map_eq_some_iff.mp done
    exact { holds with
      memberGroup := holds.memberGroup.insertRow there.1 inserted
      memberAccount := holds.memberAccount.insertRow there.2 inserted }
  case deleteGroupsOfAccount a =>
    cases done
    exact { holds with
      memberGroup := holds.memberGroup.deleteWhere _
      memberAccount := holds.memberAccount.deleteWhere _ }
  case unlinkUser gone =>
    cases done
    exact { holds with
      userAccount := holds.userAccount.deleteWhere _
      usedApplication := holds.usedApplication.deleteWhere _ }
  case unlinkManager gone =>
    cases done
    exact { holds with
      managerAccount := holds.managerAccount.deleteWhere _
      managedApplication := holds.managedApplication.deleteWhere _ }
  case unlinkAttribGroup gone =>
    cases done
    exact { holds with
      groupAttrib := holds.groupAttrib.deleteWhere _
      attribGroup := holds.attribGroup.deleteWhere _ }
  case unlinkAttribAccount gone =>
    cases done
    exact { holds with
      accountAttrib := holds.accountAttrib.deleteWhere _
      attribAccount := holds.attribAccount.deleteWhere _ }
  case unlinkGroupAccount gone =>
    cases done
    exact { holds with
      memberGroup := holds.memberGroup.deleteWhere _
      memberAccount := holds.memberAccount.deleteWhere _ }

end Referential

theorem Referential.executed {change : Directory → Directory} (executed : QueryScopes.Executed change) {db : Directory}
    (holds : Referential db) : Referential (change db) := by
  rcases executed with rfl | ⟨statement, sent, rfl⟩
  · exact holds
  · dsimp only
    cases done : statement db with
    | none => exact holds
    | some next => exact Referential.sent sent holds done

namespace QueryScopes

/-! ## Whole runs -/

/-- The account is in no group, has no right and belongs to no application, and none is its own. -/
structure Bare (db : Directory) (sAccountName : String) : Prop where
  groups : ∀ group, group ∉ db.accountGroups sAccountName
  rights : ∀ attrib, attrib ∉ db.accountUsableAttribs sAccountName
  applications : ∀ appName, appName ∉ db.accountApplications sAccountName
  owned : ∀ appName, db.applicationValidateOwner appName sAccountName = false

section
variable {db : Directory} {a : String}

/-- The links of the accounts are the same. -/
theorem Bare.congr {after : Directory} (bare : Bare db a) (groups : after.groupsAccounts = db.groupsAccounts)
    (attribs : after.attribsAccounts = db.attribsAccounts) (groupAttribs : after.attribsGroups = db.attribsGroups)
    (users : after.applicationUsers = db.applicationUsers)
    (managers : after.applicationManagers = db.applicationManagers) : Bare after a where
  groups group := by
    rw [Directory.mem_accountGroups, groups, ← Directory.mem_accountGroups]
    exact bare.groups group
  rights attrib := by
    rw [Directory.mem_accountUsableAttribs, Directory.HasRight, groups, attribs, groupAttribs, ← Directory.HasRight,
      ← Directory.mem_accountUsableAttribs]
    exact bare.rights attrib
  applications appName := by
    rw [Directory.mem_accountApplications, users, ← Directory.mem_accountApplications]
    exact bare.applications appName
  owned appName := by
    rw [Directory.applicationValidateOwner, managers]
    exact bare.owned appName

end

end QueryScopes

end Mantids.Auth
