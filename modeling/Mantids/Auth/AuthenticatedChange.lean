import Mantids.Auth.Lockout
import Mantids.Auth.SecretStorage

/-! A whole call of `authenticate`, and the change of a secret that asks for one (`manager.cpp`). -/

set_option autoImplicit false

namespace Mantids.Auth

open Library

/-- All of a secret but the number of attempts. -/
def Secret.data (secret : Secret) : Secret := { secret with badAttempts := 0 }

namespace Database

/-- The judgement and the writes after it. -/
def authenticate (crypto : Crypto) (policy : Policy) (db : Database) (now : Time) (call : Call) : Reason × Database :=
  let judged := judge crypto policy db now call
  if judged.returns then (judged.ret, db)
  else
    let (db, rest) := registerChange policy db now ⟨call.key, judged.ret, judged.badAttempts, false⟩
    (judged.ret, rest.elim db fun pending => (registerChange policy db now pending).1)

/-- The row of the key makes room for a new one, which needs the rows that its foreign keys refer to. -/
def accountChangeSecret (db : Database) (sAccountName : String) (passwordData : Secret) (passIndex : PassIndex) :
    Bool × Database :=
  let db := { db with secrets := db.secrets.erase (sAccountName, passIndex) }
  if (db.accounts.get sAccountName).isSome ∧ (db.secretsIndexs.get passIndex).isSome then
    (true, { db with secrets := db.secrets.insert (sAccountName, passIndex) passwordData.data })
  else (false, db)

/-- An index that is not found is to be made by who knows the master password. -/
def accountChangeAuthenticatedSecret (crypto : Crypto) (policy : Policy) (db : Database) (now : Time) (call : Call)
    (passwordData : Secret) : Bool × Database :=
  let (i, db) := db.authenticate crypto policy now call
  let (i, db) :=
    if i = .passwordIndexNotFound then db.authenticate crypto policy now { call with passIndex := 0 } else (i, db)
  if isPasswordAuthenticated i then db.accountChangeSecret call.sAccountName passwordData call.passIndex
  else (false, db)

/-- The account may log in to the application. -/
structure Admits (policy : Policy) (db : Database) (now : Time) (appName sAccountName : String) : Prop where
  application : db.applicationValidateAccount appName sAccountName = true
  confirmed : db.isAccountConfirmed sAccountName = true
  enabled : db.isAccountDisabled sAccountName = false
  unexpired : db.isAccountExpired now sAccountName = false
  used : ¬db.accountLastLogin sAccountName + policy.bAuthPolicyAbandonedAccountExpirationSeconds < now

/-- The secret of the index takes the password. -/
def Accepts (crypto : Crypto) (db : Database) (now : Time) (sAccountName password : String) (passIndex : PassIndex) :
    Prop :=
  ∃ secret ∈ db.secrets.get (sAccountName, passIndex),
    isPasswordAuthenticated (validateStoredSecret crypto now secret password "" .plain) = true

section
variable {crypto : Crypto} {policy : Policy} {db : Database} {now : Time}

/-- The expiry and the comparison go by the data. -/
theorem validateStoredSecret_attempts (secret : Secret) (attempts : Nat) (passwordInput challengeSalt : String)
    (authMode : Mode) :
    validateStoredSecret crypto now { secret with badAttempts := attempts } passwordInput challengeSalt authMode =
      validateStoredSecret crypto now secret passwordInput challengeSalt authMode := rfl

/-- A call that asks with the password itself, and not for the indexes of a login. -/
def plainCall (appName sAccountName password : String) (passIndex : PassIndex) : Call :=
  ⟨appName, sAccountName, password, passIndex, .plain, "", false⟩

theorem authenticate_fst (call : Call) :
    (db.authenticate crypto policy now call).1 = (judge crypto policy db now call).ret := by
  unfold authenticate
  dsimp only
  split <;> rfl

theorem Admits.found {appName sAccountName : String} (admits : db.Admits policy now appName sAccountName) :
    db.accountExist sAccountName = true := by
  have confirmed := admits.confirmed
  unfold isAccountConfirmed at confirmed
  unfold accountExist
  cases found : db.accounts.get sAccountName with
  | none =>
    rw [found] at confirmed
    cases confirmed
  | some account => rfl

section
variable {appName sAccountName password : String} {passIndex : PassIndex}

theorem judge_found (admits : db.Admits policy now appName sAccountName) {secret : Secret}
    (found : db.secrets.get (sAccountName, passIndex) = some secret) :
    judge crypto policy db now (plainCall appName sAccountName password passIndex) =
      ⟨validateStoredSecret crypto now secret password "" .plain, false, secret.badAttempts % 2 ^ 32,
        some (validateStoredSecret crypto now secret password "" .plain)⟩ := by
  simp [judge, plainCall, retrieveSecret, admits.found, found, admits.application, admits.confirmed, admits.enabled,
    admits.unexpired, admits.used, validateStoredSecret_attempts]

theorem judge_absent (admits : db.Admits policy now appName sAccountName)
    (absent : db.secrets.get (sAccountName, passIndex) = none) :
    judge crypto policy db now (plainCall appName sAccountName password passIndex) =
      ⟨.passwordIndexNotFound, false, 0, none⟩ := by
  simp [judge, plainCall, retrieveSecret, admits.found, absent, admits.application, Secret.none]

theorem judge_refused (refused : ¬db.Admits policy now appName sAccountName) :
    isPasswordAuthenticated (judge crypto policy db now (plainCall appName sAccountName password passIndex)).ret =
      false := by
  unfold judge plainCall
  dsimp only
  split_ifs with application account index confirmed disabled expired used wants
  all_goals first
    | rfl
    | exact absurd ⟨application, by simpa using confirmed, by simpa using disabled, by simpa using expired, used⟩ refused

theorem judge_authenticates :
    isPasswordAuthenticated (judge crypto policy db now (plainCall appName sAccountName password passIndex)).ret = true ↔
      db.Admits policy now appName sAccountName ∧ db.Accepts crypto now sAccountName password passIndex := by
  by_cases admits : db.Admits policy now appName sAccountName
  · cases found : db.secrets.get (sAccountName, passIndex) with
    | none =>
      rw [judge_absent admits found]
      simp [Accepts, found, isPasswordAuthenticated]
    | some secret =>
      rw [judge_found admits found]
      simp [Accepts, found, admits]
  · rw [judge_refused admits]
    simp [admits]

end

/-! ## What a call leaves of the secrets -/

/-- The same secrets but for their attempts, of the same indexes. -/
structure SameSecrets (db next : Database) : Prop where
  data : ∀ key, (next.secrets.get key).map Secret.data = (db.secrets.get key).map Secret.data
  secretsIndexs : next.secretsIndexs = db.secretsIndexs

theorem SameSecrets.refl (db : Database) : SameSecrets db db := ⟨fun _ => rfl, rfl⟩

theorem SameSecrets.trans {next last : Database} (first : SameSecrets db next) (second : SameSecrets next last) :
    SameSecrets db last :=
  ⟨fun key => (second.data key).trans (first.data key), second.secretsIndexs.trans first.secretsIndexs⟩

theorem sameSecrets_setBadAttempts (sAccountName : String) (passIndex : PassIndex) (change : Nat → Nat) :
    SameSecrets db (db.setBadAttempts sAccountName passIndex change) where
  data key := by
    rw [get_setBadAttempts]
    split
    · rw [Option.map_map]
      rfl
    · rfl
  secretsIndexs := by
    unfold setBadAttempts
    split <;> rfl

theorem sameSecrets_setAttribs (sAccountName : String) (change : AccountAttribs → AccountAttribs) :
    SameSecrets db (db.setAttribs sAccountName change) := by
  unfold setAttribs
  split <;> exact ⟨fun _ => rfl, rfl⟩

theorem sameSecrets_updateLastLogin (sAccountName : String) : SameSecrets db (db.updateLastLogin now sAccountName) := by
  unfold updateLastLogin
  split <;> exact ⟨fun _ => rfl, rfl⟩

theorem sameSecrets_registerChange (pending : Pending) : SameSecrets db (registerChange policy db now pending).1 := by
  unfold registerChange
  dsimp only
  split_ifs
  · dsimp only [resetBadAttempts]
    apply sameSecrets_setBadAttempts
  · apply sameSecrets_updateLastLogin
  · unfold accountDisable
    split_ifs
    · exact .refl db
    · dsimp only
      apply sameSecrets_setAttribs
    · exact .refl db
  · dsimp only [incrementBadAttempts]
    apply sameSecrets_setBadAttempts

theorem sameSecrets_authenticate (call : Call) : SameSecrets db (db.authenticate crypto policy now call).2 := by
  unfold authenticate
  dsimp only
  split
  · exact .refl db
  · cases (registerChange policy db now ⟨call.key, (judge crypto policy db now call).ret,
        (judge crypto policy db now call).badAttempts, false⟩).2 with
    | none => exact sameSecrets_registerChange _
    | some pending => exact (sameSecrets_registerChange _).trans (sameSecrets_registerChange pending)

/-- The index of a secret has a row of its own. -/
def Referenced (db : Database) : Prop :=
  ∀ key, (db.secrets.get key).isSome = true → (db.secretsIndexs.get key.2).isSome = true

theorem SameSecrets.referenced {next : Database} (same : SameSecrets db next) (referenced : db.Referenced) :
    next.Referenced := by
  intro key stored
  rw [same.secretsIndexs]
  apply referenced
  have data := congrArg Option.isSome (same.data key)
  rw [Option.isSome_map, Option.isSome_map, stored] at data
  exact data.symm

theorem Referenced.accountChangeSecret (referenced : db.Referenced) (sAccountName : String) (passwordData : Secret)
    (passIndex : PassIndex) : (db.accountChangeSecret sAccountName passwordData passIndex).2.Referenced := by
  have erased : Referenced { db with secrets := db.secrets.erase (sAccountName, passIndex) } := by
    intro key stored
    dsimp only at stored
    rw [get_erase] at stored
    split at stored
    · cases stored
    · exact referenced key stored
  unfold Database.accountChangeSecret
  dsimp only
  split
  case isTrue rows =>
    intro key stored
    dsimp only at stored
    rw [get_insert] at stored
    split at stored
    case isTrue same =>
      rw [same]
      exact rows.2
    case isFalse => exact erased key stored
  case isFalse => exact erased

/-- One secret is the new one, and the others are as before. -/
structure Replaces (db next : Database) (sAccountName : String) (passIndex : PassIndex) (passwordData : Secret) :
    Prop where
  data : ∀ key, (next.secrets.get key).map Secret.data =
    if key = (sAccountName, passIndex) then some passwordData.data else (db.secrets.get key).map Secret.data
  secretsIndexs : next.secretsIndexs = db.secretsIndexs

theorem SameSecrets.replaces {next last : Database} {sAccountName : String} {passIndex : PassIndex}
    {passwordData : Secret} (same : SameSecrets db next) (replaces : Replaces next last sAccountName passIndex passwordData) :
    Replaces db last sAccountName passIndex passwordData where
  data key := by rw [replaces.data, same.data]
  secretsIndexs := replaces.secretsIndexs.trans same.secretsIndexs

theorem Referenced.accountChangeAuthenticatedSecret (referenced : db.Referenced) (call : Call) (passwordData : Secret) :
    (db.accountChangeAuthenticatedSecret crypto policy now call passwordData).2.Referenced := by
  have first := (@sameSecrets_authenticate crypto policy db now call).referenced referenced
  have second := (@sameSecrets_authenticate crypto policy (db.authenticate crypto policy now call).2 now
    { call with passIndex := 0 }).referenced first
  unfold Database.accountChangeAuthenticatedSecret
  dsimp only
  split_ifs
  · exact second.accountChangeSecret _ _ _
  · exact second
  · exact first.accountChangeSecret _ _ _
  · exact first

section
variable {appName sAccountName password : String} {passIndex : PassIndex}

/-- What makes a password right outlives its own call. -/
theorem authenticate_again (admits : db.Admits policy now appName sAccountName)
    (accepts : db.Accepts crypto now sAccountName password passIndex) :
    let next := (db.authenticate crypto policy now (plainCall appName sAccountName password passIndex)).2
    next.Admits policy now appName sAccountName ∧ next.Accepts crypto now sAccountName password passIndex := by
  obtain ⟨secret, found, accepted⟩ := accepts
  obtain ⟨account, row⟩ := Option.isSome_iff_exists.mp admits.found
  have written : (db.authenticate crypto policy now (plainCall appName sAccountName password passIndex)).2 =
      (db.updateLastLogin now sAccountName).resetBadAttempts sAccountName passIndex := by
    unfold authenticate
    rw [judge_found admits found]
    simp [registerChange, accepted, plainCall, Call.key]
  intro next
  have same : next = (db.updateLastLogin now sAccountName).resetBadAttempts sAccountName passIndex := written
  have accounts : next.accounts = db.accounts.insert sAccountName { account with lastLogin := now } := by
    rw [same, resetBadAttempts, accounts_setBadAttempts, updateLastLogin, row]
  have stored : next.secrets.get (sAccountName, passIndex) = some { secret with badAttempts := 0 } := by
    rw [same, resetBadAttempts, get_setBadAttempts, if_pos rfl, updateLastLogin, row]
    exact congrArg _ found
  have users : next.applicationUsers = db.applicationUsers := by
    rw [same, resetBadAttempts, setBadAttempts, updateLastLogin, row]
    split <;> rfl
  have confirmed := admits.confirmed
  have enabled := admits.enabled
  have unexpired := admits.unexpired
  simp only [isAccountConfirmed, isAccountDisabled, isAccountExpired, accountExpirationDate, row] at confirmed enabled unexpired
  refine ⟨⟨?_, ?_, ?_, ?_, ?_⟩, ?_⟩
  · rw [applicationValidateAccount, users]
    exact admits.application
  · simp only [isAccountConfirmed, accounts, get_insert_self]
    exact confirmed
  · simp only [isAccountDisabled, accounts, get_insert_self]
    exact enabled
  · simp only [isAccountExpired, accountExpirationDate, accounts, get_insert_self]
    exact unexpired
  · simp only [accountLastLogin, accounts, get_insert_self]
    exact not_lt.mpr (Int.le_add_of_nonneg_right (Int.natCast_nonneg _))
  · exact ⟨_, stored, accepted⟩

theorem replaces_accountChangeSecret (passwordData : Secret) (account : db.accountExist sAccountName = true)
    (index : (db.secretsIndexs.get passIndex).isSome = true) :
    (db.accountChangeSecret sAccountName passwordData passIndex).1 = true ∧
      Replaces db (db.accountChangeSecret sAccountName passwordData passIndex).2 sAccountName passIndex passwordData := by
  unfold accountChangeSecret
  dsimp only
  rw [if_pos ⟨account, index⟩]
  refine ⟨rfl, ?_, rfl⟩
  intro key
  rw [get_insert, get_erase]
  split
  · rfl
  · rfl

/-- The rule, where the index has a secret that takes the password. -/
theorem replaces_of_authenticates (passwordData : Secret) (admits : db.Admits policy now appName sAccountName)
    (accepts : db.Accepts crypto now sAccountName password passIndex)
    (index : (db.secretsIndexs.get passIndex).isSome = true) :
    let changed := db.accountChangeAuthenticatedSecret crypto policy now
      (plainCall appName sAccountName password passIndex) passwordData
    changed.1 = true ∧ Replaces db changed.2 sAccountName passIndex passwordData := by
  have right := judge_authenticates.mpr ⟨admits, accepts⟩
  have other : (judge crypto policy db now (plainCall appName sAccountName password passIndex)).ret ≠
      .passwordIndexNotFound := by
    intro absent
    rw [absent] at right
    cases right
  have same := @sameSecrets_authenticate crypto policy db now (plainCall appName sAccountName password passIndex)
  have after := (authenticate_again admits accepts).1.found
  rw [← same.secretsIndexs] at index
  obtain ⟨changed, replaces⟩ := replaces_accountChangeSecret passwordData after index
  unfold accountChangeAuthenticatedSecret
  dsimp only
  rw [authenticate_fst, if_neg other]
  dsimp only
  rw [if_pos right]
  exact ⟨changed, same.replaces replaces⟩

/-- The rule, where the index has no secret; a policy of one try disables the account instead. -/
theorem replaces_of_master (passwordData : Secret) (admits : db.Admits policy now appName sAccountName)
    (absent : db.secrets.get (sAccountName, passIndex) = none)
    (master : db.Accepts crypto now sAccountName password 0) (tries : 1 < policy.bAuthPolicyMaxTries.toNat)
    (index : (db.secretsIndexs.get passIndex).isSome = true) :
    let changed := db.accountChangeAuthenticatedSecret crypto policy now
      (plainCall appName sAccountName password passIndex) passwordData
    changed.1 = true ∧ Replaces db changed.2 sAccountName passIndex passwordData := by
  have first : db.authenticate crypto policy now (plainCall appName sAccountName password passIndex) =
      (.passwordIndexNotFound, db) := by
    unfold authenticate
    rw [judge_absent admits absent]
    have counted : ¬policy.bAuthPolicyMaxTries.toNat ≤ 1 := by omega
    simp [registerChange, Pending.disables, isPasswordAuthenticated, plainCall, Call.key, counted,
      incrementBadAttempts, setBadAttempts, absent]
  have right := judge_authenticates.mpr ⟨admits, master⟩
  have same := @sameSecrets_authenticate crypto policy db now (plainCall appName sAccountName password 0)
  have after := (authenticate_again admits master).1.found
  rw [← same.secretsIndexs] at index
  obtain ⟨changed, replaces⟩ := replaces_accountChangeSecret passwordData after index
  unfold accountChangeAuthenticatedSecret
  rw [first]
  have zero : { plainCall appName sAccountName password passIndex with passIndex := 0 } =
      plainCall appName sAccountName password 0 := rfl
  dsimp only
  rw [if_pos rfl, zero, authenticate_fst, if_pos right]
  exact ⟨changed, same.replaces replaces⟩

end

end

end Database

end Mantids.Auth
