import Mantids.Auth.QueryScopes

/-! Every operation of `Manager_DB` but one finds the lock of its connector free at each of its statements. -/

set_option autoImplicit false

namespace Mantids.Auth.QueryScopes

open Library Library.LockScopes Library.LockScopes.Program

/-! ## What is sent -/

open Directory in
/-- The changing statements of the operations. -/
inductive Sent : (Directory → Option Directory) → Prop where
  | insertAccount (a : String) (row : AccountRow) : Sent (insertAccount a row)
  | updateAccount (a : String) (change : AccountRow → AccountRow) : Sent (updateAccount a change)
  | deleteAccount (a : String) : Sent fun db => some (db.deleteAccount a)
  | insertActivationToken (a token : String) : Sent (insertActivationToken a token)
  | insertSecret (a : String) (index : PassIndex) (secret : Secret) : Sent (insertSecret a index secret)
  | updateSecret (a : String) (index : PassIndex) (change : SecretRow → SecretRow) : Sent (updateSecret a index change)
  | deleteSecret (a : String) (index : PassIndex) : Sent fun db => some (db.deleteSecret a index)
  | insertSecretIndex (index : PassIndex) (description : String) (required : Bool) :
    Sent (insertSecretIndex index description required)
  | updateSecretIndex (index : PassIndex) (description : String) (required : Bool) :
    Sent (updateSecretIndex index description required)
  | deleteSecretIndex (index : PassIndex) : Sent (deleteSecretIndex index)
  | insertLogin (a : String) (index : PassIndex) : Sent (insertLogin a index)
  | insertApplication (appName : String) (row : ApplicationRow) : Sent (insertApplication appName row)
  | updateApplication (appName : String) {change : ApplicationRow → ApplicationRow}
    (creator : ∀ row, (change row).f_appCreator = row.f_appCreator) : Sent (updateApplication appName change)
  | deleteApplications (gone : String → Bool) : Sent fun db => some (db.deleteApplications gone)
  | insertApplicationUser (a appName : String) : Sent (insertApplicationUser a appName)
  | insertApplicationManager (a appName : String) : Sent (insertApplicationManager a appName)
  | insertAttrib (attrib : ApplicationAttrib) (description : String) : Sent (insertAttrib attrib description)
  | updateAttrib (attrib : ApplicationAttrib) (description : String) : Sent (updateAttrib attrib description)
  | deleteAttribs (gone : ApplicationAttrib → Bool) : Sent fun db => some (db.deleteAttribs gone)
  | insertAttribGroup (attrib : ApplicationAttrib) (group : String) : Sent (insertAttribGroup attrib group)
  | insertAttribAccount (attrib : ApplicationAttrib) (a : String) : Sent (insertAttribAccount attrib a)
  | insertGroup (group description : String) : Sent (insertGroup group description)
  | updateGroup (group description : String) : Sent (updateGroup group description)
  | deleteGroup (group : String) : Sent fun db => some (db.deleteGroup group)
  | insertGroupAccount (group a : String) : Sent (insertGroupAccount group a)
  | deleteGroupsOfAccount (a : String) : Sent fun db => some (db.deleteGroupsOfAccount a)
  | unlinkUser (gone : String × String → Bool) :
    Sent fun db => some { db with applicationUsers := db.applicationUsers.deleteWhere fun link _ => gone link }
  | unlinkManager (gone : String × String → Bool) :
    Sent fun db => some { db with applicationManagers := db.applicationManagers.deleteWhere fun link _ => gone link }
  | unlinkAttribGroup (gone : ApplicationAttrib × String → Bool) :
    Sent fun db => some { db with attribsGroups := db.attribsGroups.deleteWhere fun link _ => gone link }
  | unlinkAttribAccount (gone : ApplicationAttrib × String → Bool) :
    Sent fun db => some { db with attribsAccounts := db.attribsAccounts.deleteWhere fun link _ => gone link }
  | unlinkGroupAccount (gone : String × String → Bool) :
    Sent fun db => some { db with groupsAccounts := db.groupsAccounts.deleteWhere fun link _ => gone link }

/-- What a statement makes of the database, where a refused one and a SELECT change nothing. -/
def Executed (change : Directory → Directory) : Prop :=
  change = (fun db => db) ∨ ∃ statement, Sent statement ∧ change = fun db => (statement db).getD db

theorem Sent.executed {statement : Directory → Option Directory} (sent : Sent statement) :
    Executed fun db => (statement db).getD db :=
  .inr ⟨statement, sent, rfl⟩

section
variable (env : Surroundings) (ms : UInt64) (sAccountName : String) (passIndex : PassIndex)

theorem sent_query {statement : Directory → Option Directory} (sent : Sent statement) :
    Sequential (ms = 0) Executed (query ms statement) :=
  sequential_query ms sent.executed

theorem sent_reads {α : Type} (rows : Directory → α) (nothing : α) :
    Sequential (ms = 0) Executed (reads ms rows nothing) :=
  sequential_reads ms rows nothing (.inl rfl)

theorem sent_changes {statements : List (Directory → Option Directory)} (sent : ∀ statement ∈ statements, Sent statement) :
    Sequential (ms = 0) Executed (changes ms statements) :=
  (sequential_queries ms fun statement member => (sent statement member).executed).map _

theorem sent_change {statement : Directory → Option Directory} (sent : Sent statement) :
    Sequential (ms = 0) Executed (changes ms [statement]) :=
  sent_changes ms fun _ member => List.mem_singleton.mp member ▸ sent

theorem sent_accountAdd (new : NewAccount) : Sequential (ms = 0) Executed (accountAdd env ms new) := by
  refine sequential_queries ms fun statement member => Sent.executed ?_
  simp only [NewAccount.statements, List.mem_cons, List.not_mem_nil, or_false] at member
  rcases member with rfl | rfl | rfl
  · exact .insertAccount new.sAccountName _
  · exact .insertActivationToken new.sAccountName env.confirmationToken
  · exact .insertSecret new.sAccountName 0 new.secretData

theorem sent_guarded (needed : Bool) {change : Directory → Option Directory} (sent : Sent change) :
    Sequential (ms = 0) Executed (guarded ms sAccountName needed change) :=
  .ite ((sent_reads ms _ false).bind fun _ => .ite (sent_query ms sent) (.pure false)) (sent_query ms sent)

theorem sent_accountChangeSecret (passwordData : Secret) :
    Sequential (ms = 0) Executed (accountChangeSecret ms sAccountName passIndex passwordData) :=
  (sent_query ms (.deleteSecret sAccountName passIndex)).bind fun _ =>
    sent_query ms (.insertSecret sAccountName passIndex passwordData)

theorem sent_updateLastLogin (uPassIdx : PassIndex) :
    Sequential (ms = 0) Executed (updateLastLogin env ms sAccountName uPassIdx) :=
  (sent_query ms (.updateAccount sAccountName _)).bind fun _ =>
    (sent_query ms (.insertLogin sAccountName uPassIdx)).bind fun _ => .pure ()

theorem sent_resetBadAttempts : Sequential (ms = 0) Executed (resetBadAttempts ms sAccountName passIndex) :=
  (sent_query ms (.updateSecret sAccountName passIndex _)).bind fun _ => .pure ()

theorem sent_incrementBadAttempts : Sequential (ms = 0) Executed (incrementBadAttempts ms sAccountName passIndex) :=
  (sent_query ms (.updateSecret sAccountName passIndex _)).bind fun _ => .pure ()

theorem sent_retrieveSecret : Sequential (ms = 0) Executed (retrieveSecret ms sAccountName passIndex) :=
  (sent_reads ms _ false).bind fun _ => .ite (sent_reads ms _ _) (.pure _)

/-! ## What the manager inherits -/

theorem sent_isAccountExpired : Sequential (ms = 0) Executed (isAccountExpired env ms sAccountName) :=
  (sent_reads ms _ 1).bind fun _ => .pure _

theorem sent_accountPassIndexesUsedForLogin :
    Sequential (ms = 0) Executed (accountPassIndexesUsedForLogin ms sAccountName) := by
  refine (sent_reads ms _ []).bind fun requiredForLogin => .ite (.pure _) ?_
  refine (sent_reads ms _ []).bind fun used => .foldlM (fun r i => ?_) used []
  exact .ite ((sent_reads ms _ "").map _) (.pure r)

theorem sent_accountSecretPublicData :
    Sequential (ms = 0) Executed (accountSecretPublicData env ms sAccountName passIndex) := by
  refine (sent_retrieveSecret ms sAccountName passIndex).bind fun ⟨pd, bAccountFound, bIndexFound⟩ => .ite ?_ (.pure _)
  exact (sent_reads ms _ "").bind fun description => (sent_reads ms _ []).bind fun forlogin => .pure _

theorem sent_getAccountAllSecretsPublicData :
    Sequential (ms = 0) Executed (getAccountAllSecretsPublicData env ms sAccountName) := by
  refine (sent_reads ms _ []).bind fun requiredForLogin => (sent_reads ms _ []).bind fun usedByAccount => ?_
  exact .foldlM (fun r idx => (sent_accountSecretPublicData env ms sAccountName idx).map _) _ []

theorem sent_accountUsableAttribs : Sequential (ms = 0) Executed (accountUsableAttribs ms sAccountName) := by
  refine (sent_reads ms _ _).bind fun direct => (sent_reads ms _ _).bind fun groups => ?_
  exact .foldlM (fun x groupName => (sent_reads ms _ _).map _) groups.elements _

theorem sent_accountValidateAttribute (applicationAttrib : ApplicationAttrib) :
    Sequential (ms = 0) Executed (accountValidateAttribute ms sAccountName applicationAttrib) := by
  refine (sent_reads ms _ false).bind fun validated => .ite (.pure true) ?_
  exact (sent_reads ms _ _).bind fun groups => .anyM (fun groupName => sent_reads ms _ false) groups.elements

theorem sent_judge (call : Call) : Sequential (ms = 0) Executed (judge env ms call) := by
  refine (sent_reads ms _ false).bind fun validated => .ite ?_ (.pure _)
  refine (sent_retrieveSecret ms call.sAccountName call.passIndex).bind fun ⟨stored, accountFound, indexFound⟩ => ?_
  refine .ite (.pure _) (.ite (.pure _) ?_)
  refine (sent_reads ms _ 1).bind fun lastLogin => ?_
  refine (sent_reads ms _ false).bind fun confirmed => .ite (.pure _) ?_
  refine (sent_reads ms _ true).bind fun disabled => .ite (.pure _) ?_
  refine (sent_isAccountExpired env ms call.sAccountName).bind fun expired => .ite (.pure _) ?_
  refine .ite (.pure _) (.ite ?_ (.pure _))
  exact (sent_accountPassIndexesUsedForLogin ms call.sAccountName).bind fun indexes => .ite (.pure _) (.pure _)

theorem sent_registerChange (call : Call) (ret : Reason) (attempts : Nat) :
    Sequential (ms = 0) Executed (registerChange env ms call ret attempts) := by
  refine .ite ?_ (.ite ?_ (sent_incrementBadAttempts ms call.sAccountName call.passIndex))
  · exact (sent_updateLastLogin env ms call.sAccountName call.passIndex).bind fun _ =>
      sent_resetBadAttempts ms call.sAccountName call.passIndex
  · exact (sent_guarded ms call.sAccountName true (.updateAccount call.sAccountName _)).bind fun _ => .pure ()

theorem sent_authenticate (call : Call) : Sequential (ms = 0) Executed (authenticate env ms call) := by
  refine (sent_judge env ms call).bind fun ⟨ret, attempts, indexes⟩ => ?_
  cases attempts with
  | none => exact .pure _
  | some attempts => exact (sent_registerChange env ms call ret attempts).map _

theorem sent_accountChangeAuthenticatedSecret (call : Call) (newPasswordData : Secret) :
    Sequential (ms = 0) Executed (accountChangeAuthenticatedSecret env ms call newPasswordData) := by
  refine (sent_authenticate env ms _).bind fun first => ?_
  refine .bind (.ite ((sent_authenticate env ms _).map _) (.pure first.1)) fun i => ?_
  exact .ite (sent_accountChangeSecret ms call.sAccountName call.passIndex newPasswordData) (.pure false)

/-! ## Every operation -/

theorem PassIndexOperation.sent_run (op : PassIndexOperation) : Sequential (ms = 0) Executed (op.run ms) := by
  cases op
  case passIndexAdd index description required => exact sent_change ms (.insertSecretIndex index description required)
  case passIndexModify index description required => exact sent_change ms (.updateSecretIndex index description required)
  case passIndexDelete index => exact sent_change ms (.deleteSecretIndex index)
  -- a single SELECT
  all_goals exact (sent_reads ms _ _).map _

/-- All but the one that is looked at on its own. -/
theorem AccountOperation.sent_run {op : AccountOperation}
    (confirm : ∀ sAccountName confirmationToken, op ≠ .accountConfirm sAccountName confirmationToken) :
    Sequential (ms = 0) Executed (op.run env ms) := by
  cases op
  case accountConfirm a token => exact absurd rfl (confirm a token)
  case accountAdd new => exact (sent_accountAdd env ms new).map _
  case accountRemove a => exact (sent_guarded ms a true (.deleteAccount a)).map _
  case accountDisable a disabled => exact (sent_guarded ms a disabled (.updateAccount a _)).map _
  case accountChangeAttribs a attribs => exact (sent_guarded ms a _ (.updateAccount a _)).map _
  case accountChangeSecret a data index => exact (sent_accountChangeSecret ms a index data).map _
  case accountChangeGroupSet a groupSet =>
    refine sent_changes ms fun statement member => ?_
    rcases List.mem_cons.mp member with rfl | member
    · exact .deleteGroupsOfAccount a
    · obtain ⟨group, -, rfl⟩ := List.mem_map.mp member
      exact .insertGroupAccount group a
  case updateLastLogin a index => exact (sent_updateLastLogin env ms a index).map _
  case resetBadAttempts a index => exact (sent_resetBadAttempts ms a index).map _
  case incrementBadAttempts a index => exact (sent_incrementBadAttempts ms a index).map _
  -- the others set a column
  all_goals exact sent_change ms (.updateAccount _ _)

theorem AccountQuestion.sent_run (op : AccountQuestion) : Sequential (ms = 0) Executed (op.run env ms) := by
  cases op
  all_goals exact (sent_reads ms _ _).map _

theorem ApplicationOperation.sent_run (op : ApplicationOperation) : Sequential (ms = 0) Executed (op.run env ms) := by
  cases op
  case applicationAdd appName description key owner => exact sent_change ms (.insertApplication appName _)
  case applicationRemove appName => exact sent_change ms (.deleteApplications _)
  case applicationChangeKey appName key => exact sent_change ms (.updateApplication appName fun _ => rfl)
  case applicationChangeDescription appName text => exact sent_change ms (.updateApplication appName fun _ => rfl)
  case applicationAccountAdd appName a => exact sent_change ms (.insertApplicationUser a appName)
  case applicationAccountRemove appName a => exact sent_change ms (.unlinkUser _)
  case applicationOwnerAdd appName a => exact sent_change ms (.insertApplicationManager a appName)
  case applicationOwnerRemove appName a => exact sent_change ms (.unlinkManager _)
  -- a single SELECT
  all_goals exact (sent_reads ms _ _).map _

theorem AttribOperation.sent_run (op : AttribOperation) : Sequential (ms = 0) Executed (op.run env ms) := by
  cases op
  case attribAdd attrib description => exact sent_change ms (.insertAttrib attrib description)
  case attribRemove attrib => exact sent_change ms (.deleteAttribs _)
  case attribGroupAdd attrib group => exact sent_change ms (.insertAttribGroup attrib group)
  case attribGroupRemove attrib group => exact sent_change ms (.unlinkAttribGroup _)
  case attribAccountAdd attrib a => exact sent_change ms (.insertAttribAccount attrib a)
  case attribAccountRemove attrib a => exact sent_change ms (.unlinkAttribAccount _)
  case attribChangeDescription attrib text => exact sent_change ms (.updateAttrib attrib text)
  -- a single SELECT
  all_goals exact (sent_reads ms _ _).map _

theorem GroupOperation.sent_run (op : GroupOperation) : Sequential (ms = 0) Executed (op.run env ms) := by
  cases op
  case groupAdd group description => exact sent_change ms (.insertGroup group description)
  case groupRemove group => exact sent_change ms (.deleteGroup group)
  case groupAccountAdd group a => exact sent_change ms (.insertGroupAccount group a)
  case groupAccountRemove group a => exact sent_change ms (.unlinkGroupAccount _)
  case groupChangeDescription group text => exact sent_change ms (.updateGroup group text)
  -- a single SELECT
  all_goals exact (sent_reads ms _ _).map _

theorem ManagerOperation.sent_run (op : ManagerOperation) : Sequential (ms = 0) Executed (op.run env ms) := by
  cases op
  case initAccounts => exact (sent_accountAdd env ms _).map _
  case retrieveSecret a index => exact (sent_retrieveSecret ms a index).map _
  case isAccountExpired a => exact (sent_isAccountExpired env ms a).map _
  case accountPassIndexesUsedForLogin a => exact (sent_accountPassIndexesUsedForLogin ms a).map _
  case accountSecretPublicData a index => exact (sent_accountSecretPublicData env ms a index).map _
  case getAccountAllSecretsPublicData a => exact (sent_getAccountAllSecretsPublicData env ms a).map _
  case accountUsableAttribs a => exact (sent_accountUsableAttribs ms a).map _
  case accountValidateAttribute a attrib => exact (sent_accountValidateAttribute ms a attrib).map _
  case authenticate call => exact (sent_authenticate env ms call).map _
  case accountChangeAuthenticatedSecret call data => exact (sent_accountChangeAuthenticatedSecret env ms call data).map _
  -- a single SELECT
  all_goals exact (sent_reads ms _ _).map _

/-- All but the two that are looked at on their own. -/
theorem sent_run {op : Operation}
    (confirm : ∀ sAccountName confirmationToken, op ≠ .account (.accountConfirm sAccountName confirmationToken))
    (scheme : ∀ dbTableExist creates, op ≠ .initScheme dbTableExist creates) :
    Sequential (ms = 0) Executed (op.run env ms) := by
  cases op with
  | initScheme dbTableExist creates => exact absurd rfl (scheme dbTableExist creates)
  | passIndex op => exact op.sent_run ms
  | account op =>
    exact op.sent_run env ms fun a token same => confirm a token (congrArg Operation.account same)
  | asked op => exact op.sent_run env ms
  | application op => exact op.sent_run env ms
  | attrib op => exact op.sent_run env ms
  | group op => exact op.sent_run env ms
  | manager op => exact op.sent_run env ms

theorem free_run {op : Operation}
    (confirm : ∀ sAccountName confirmationToken, op ≠ .account (.accountConfirm sAccountName confirmationToken)) :
    Free (op.run env ms) := by
  by_cases scheme : ∃ dbTableExist creates, op = .initScheme dbTableExist creates
  · obtain ⟨dbTableExist, creates, rfl⟩ := scheme
    have sequential : Sequential (ms = 0) (fun _ => True) ((Operation.initScheme dbTableExist creates).run env ms) :=
      (sequential_reads ms dbTableExist false trivial).bind fun _ =>
        .ite (.pure _) ((sequential_queries ms fun _ _ => trivial).map _)
    exact sequential.free
  · exact (sent_run env ms confirm fun dbTableExist creates same => scheme ⟨dbTableExist, creates, same⟩).free

end

/-! ## The confirmation of an account -/

/-- The account has the token, and it is not empty. -/
def Matches (db : Directory) (sAccountName confirmationToken : String) : Prop :=
  db.accountActivationTokens.get sAccountName = some confirmationToken ∧ confirmationToken.isEmpty = false

section
variable {db : Directory} {sAccountName confirmationToken : String}

/-- The SELECT is the only statement. -/
theorem accountConfirm_unmatched (ms : UInt64) (unmatched : ¬Matches db sAccountName confirmationToken) :
    accountConfirm ms sAccountName confirmationToken (.start db) = (some false, ⟨db, false, [true]⟩) := by
  rw [accountConfirm, qSelect, Session.start, scope_free]
  dsimp only
  cases stored : db.accountActivationTokens.get sAccountName with
  | none => rfl
  | some token =>
    have other : ¬(!token.isEmpty ∧ token = confirmationToken) := by
      rintro ⟨some, rfl⟩
      exact unmatched ⟨stored, by simpa using some⟩
    dsimp only
    rw [if_neg other]
    rfl

/-- The UPDATE is sent while the SELECT still has the lock. -/
theorem accountConfirm_matched (ms : UInt64) (found : Matches db sAccountName confirmationToken) :
    accountConfirm ms sAccountName confirmationToken (.start db) =
      if ms = 0 then (none, ⟨db, true, [true, false]⟩) else (some false, ⟨db, false, [true, false]⟩) := by
  obtain ⟨stored, nonempty⟩ := found
  have same : !confirmationToken.isEmpty ∧ confirmationToken = confirmationToken := ⟨by simp [nonempty], rfl⟩
  rw [accountConfirm, qSelect, Session.start, scope_free, stored]
  dsimp only
  rw [if_pos same, query, scope_locked]
  by_cases endless : ms = 0
  · simp [endless]
  · simp [endless, Pure.pure, Program.pure]

end

/-! ## The operations that block -/

/-- The operations of which a statement has to wait for one of their own. -/
def Operation.Blocks (db : Directory) : Operation → Prop
  | .account (.accountConfirm sAccountName confirmationToken) => Matches db sAccountName confirmationToken
  | _ => False

/-- Each statement gets the lock, the operation ends, and the lock is free again. -/
def Operation.Unblocked (env : Surroundings) (ms : UInt64) (db : Directory) (op : Operation) : Prop :=
  ∃ answer after obtained,
    op.run env ms (.start db) = (some answer, ⟨after, false, obtained⟩) ∧ ∀ got ∈ obtained, got = true

theorem unblocked_of_free {env : Surroundings} {ms : UInt64} {op : Operation} (free : Free (op.run env ms))
    (db : Directory) : op.Unblocked env ms db := by
  obtain ⟨answer, after, returns⟩ := free db
  obtain ⟨obtained, ran, got⟩ := returns.start
  exact ⟨answer, after, obtained, ran, got⟩

/-- From any database an operation gets through all its statements just when it is not the confirmation of an account
by its own token. -/
theorem unblocked_iff (env : Surroundings) (ms : UInt64) (db : Directory) (op : Operation) :
    op.Unblocked env ms db ↔ ¬op.Blocks db := by
  by_cases confirming : ∃ a token, op = .account (.accountConfirm a token)
  · obtain ⟨a, token, rfl⟩ := confirming
    have ran : (Operation.account (.accountConfirm a token)).run env ms (.start db) =
        ((accountConfirm ms a token (.start db)).1.map Answer.bool, (accountConfirm ms a token (.start db)).2) := by
      change Program.bind (accountConfirm ms a token) (fun done => Pure.pure (Answer.bool done)) (.start db) = _
      unfold Program.bind
      rcases accountConfirm ms a token (.start db) with ⟨_ | done, session⟩ <;> rfl
    constructor
    · rintro ⟨answer, after, obtained, done, got⟩ found
      rw [ran, accountConfirm_matched ms found] at done
      split at done
      case isTrue => cases done
      case isFalse =>
        cases done
        exact Bool.false_ne_true (got false (by simp))
    · intro unmatched
      rw [Operation.Unblocked, ran, accountConfirm_unmatched ms unmatched]
      exact ⟨.bool false, db, [true], rfl, by simp⟩
  · have other : ∀ a token, op ≠ .account (.accountConfirm a token) := fun a token same => confirming ⟨a, token, same⟩
    have free : ¬op.Blocks db := by
      cases op with
      | account op =>
        cases op
        case accountConfirm a token => exact absurd rfl (other a token)
        all_goals exact not_false
      | _ => exact not_false
    exact iff_of_true (unblocked_of_free (free_run env ms other) db) free

end Mantids.Auth.QueryScopes
