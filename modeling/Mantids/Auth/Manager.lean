import Mantids.Auth.ManagerDB

/-! The authentication of an account (`manager.cpp`): what is read and judged under
the read lock, and what is written afterwards. -/

set_option autoImplicit false

namespace Mantids.Auth

open Library

inductive Mode where
  | plain
  | challenge

/-- The hash functions of the crypto library. -/
structure Crypto where
  calcSHA256 : String → String
  calcSHA512 : String → String
  calcSSHA256 : String → List UInt8 → String
  calcSSHA512 : String → List UInt8 → String

section
variable (crypto : Crypto)

def validateChallenge (passwordFromDB challengeInput challengeSalt : String) : Reason :=
  if challengeInput = crypto.calcSHA256 (passwordFromDB ++ challengeSalt) then .authenticated else .badPassword

def validateGAuth (_seed _token : String) : Reason := .notImplemented

/-- The comparison by the function the secret is stored with; expiry is looked at afterwards. -/
def compareSecret (storedSecret : Secret) (passwordInput challengeSalt : String) (authMode : Mode) : Reason :=
  let compare (toCompare : String) : Reason :=
    match authMode with
    | .plain => if storedSecret.hash = toCompare then .authenticated else .badPassword
    | .challenge => validateChallenge crypto storedSecret.hash passwordInput challengeSalt
  match storedSecret.passwordFunction with
  | .notFound => .internalError
  | .plain => compare passwordInput
  | .sha256 => compare (crypto.calcSHA256 passwordInput)
  | .sha512 => compare (crypto.calcSHA512 passwordInput)
  | .ssha256 => compare (crypto.calcSSHA256 passwordInput storedSecret.ssalt)
  | .ssha512 => compare (crypto.calcSSHA512 passwordInput storedSecret.ssalt)
  | .gAuthTime => validateGAuth storedSecret.hash passwordInput

def validateStoredSecret (now : Time) (storedSecret : Secret) (passwordInput challengeSalt : String)
    (authMode : Mode) : Reason :=
  let r := compareSecret crypto storedSecret passwordInput challengeSalt authMode
  if storedSecret.isExpired now ∧ r = .authenticated then .expiredPassword else r

end

/-- The arguments of `authenticate`; the details of the client only go into the log of logins. -/
structure Call where
  appName : String
  sAccountName : String
  incomingPassword : String
  passIndex : PassIndex
  authMode : Mode
  challengeSalt : String
  /-- The caller asks for the indexes that a login uses. -/
  wantsPassIndexes : Bool

def Call.key (call : Call) : String × PassIndex := (call.sAccountName, call.passIndex)

structure Policy where
  bAuthPolicyMaxTries : UInt32
  bAuthPolicyAbandonedAccountExpirationSeconds : Nat

/-- What the call knows when it gives up the read lock. -/
structure Judgement where
  ret : Reason
  /-- The call is over and writes nothing. -/
  returns : Bool
  badAttempts : Nat
  /-- What the secret made of the password, when it was asked. -/
  verdict : Option Reason

/-- The part of `authenticate` under the read lock. -/
def judge (crypto : Crypto) (policy : Policy) (db : Database) (now : Time) (call : Call) : Judgement :=
  if db.applicationValidateAccount call.appName call.sAccountName then
    let (stored, accountFound, indexFound) := db.retrieveSecret call.sAccountName call.passIndex
    if accountFound = false then ⟨.badAccount, false, stored.badAttempts, none⟩
    else if indexFound = false then ⟨.passwordIndexNotFound, false, stored.badAttempts, none⟩
    else if db.isAccountConfirmed call.sAccountName = false then ⟨.unconfirmedAccount, true, 0, none⟩
    else if db.isAccountDisabled call.sAccountName then ⟨.disabledAccount, true, 0, none⟩
    else if db.isAccountExpired now call.sAccountName then ⟨.expiredAccount, true, 0, none⟩
    else if db.accountLastLogin call.sAccountName + policy.bAuthPolicyAbandonedAccountExpirationSeconds < now then
      ⟨.expiredAccount, true, 0, none⟩
    else
      let ret := validateStoredSecret crypto now stored call.incomingPassword call.challengeSalt call.authMode
      -- the first login is also told the other indexes it needs
      if isPasswordAuthenticated ret ∧ call.wantsPassIndexes ∧ call.passIndex = 0 ∧
          (db.accountPassIndexesUsedForLogin call.sAccountName).any (fun i => i.1 = 0xFFFFFFFF) then
        ⟨.internalError, true, stored.badAttempts, some ret⟩
      else ⟨ret, false, stored.badAttempts, some ret⟩
  else ⟨.badAccount, true, 0, none⟩

/-- A call between its judgement and its last write. -/
structure Pending where
  key : String × PassIndex
  ret : Reason
  badAttempts : Nat
  lastLoginUpdated : Bool

/-- The policy has the account disabled, not only the attempt counted. -/
def Pending.disables (policy : Policy) (pending : Pending) : Bool :=
  !isPasswordAuthenticated pending.ret &&
    decide ((pending.badAttempts + 1) % 2 ^ 32 ≥ policy.bAuthPolicyMaxTries.toNat)

/-- The next write of the call, and what it has still to write. -/
def registerChange (policy : Policy) (db : Database) (now : Time) (pending : Pending) : Database × Option Pending :=
  let (sAccountName, passIndex) := pending.key
  if isPasswordAuthenticated pending.ret then
    if pending.lastLoginUpdated then (db.resetBadAttempts sAccountName passIndex, none)
    else (db.updateLastLogin now sAccountName, some { pending with lastLoginUpdated := true })
  else if pending.disables policy then ((db.accountDisable .working sAccountName true).2, none)
  else (db.incrementBadAttempts sAccountName passIndex, none)

end Mantids.Auth
