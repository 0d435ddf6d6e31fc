import Mantids.Auth.Manager
import Mantids.Auth.SuperUsers

/-! How many wrong passwords an account lets somebody try: every schedule of the
two parts of `authenticate`, for any number of callers. -/

set_option autoImplicit false

namespace Mantids.Auth

open Library

abbrev Key := String × PassIndex

/-- The database, the calls between their two parts by their threads, and for each
secret the wrong guesses made since its last successful authentication or reset. -/
structure Callers where
  db : Database
  pending : Table Nat Pending
  guesses : Key → Nat

inductive CallerOp where
  | judge (thread : Nat) (now : Time) (call : Call)
  | write (thread : Nat) (now : Time)
  | resetBadAttempts (sAccountName : String) (passIndex : PassIndex)

namespace Callers

/-- A guess is wrong when the secret was asked and the password was not its own. -/
def guessed (guesses : Key → Nat) (key : Key) (judged : Judgement) : Key → Nat :=
  match judged.verdict with
  | some verdict =>
    if isPasswordAuthenticated verdict then
      if judged.returns then guesses else Function.update guesses key 0
    else Function.update guesses key (guesses key + 1)
  | none => guesses

section
variable (crypto : Crypto) (policy : Policy)

def step (s : Callers) : CallerOp → Callers
  | .judge thread now call =>
    match s.pending.get thread with
    | some _ => s
    | none =>
      let judged := Auth.judge crypto policy s.db now call
      { s with
        pending := if judged.returns then s.pending
          else s.pending.insert thread ⟨call.key, judged.ret, judged.badAttempts, false⟩
        guesses := guessed s.guesses call.key judged }
  | .write thread now =>
    match s.pending.get thread with
    | some pending =>
      let (db, rest) := registerChange policy s.db now pending
      { s with
        db := db
        pending := match rest with
          | some rest => s.pending.insert thread rest
          | none => s.pending.erase thread }
    | none => s
  | .resetBadAttempts sAccountName passIndex =>
    { s with
      db := s.db.resetBadAttempts sAccountName passIndex
      guesses := Function.update s.guesses (sAccountName, passIndex) 0 }

/-- No call on the secret is between its judgement and its last write. -/
def Settled (s : Callers) (key : Key) : Prop :=
  ∀ thread pending, s.pending.get thread = some pending → pending.key ≠ key

/-- Calls on one secret do not overlap, a try is allowed at all, and an account is
disabled while another superuser is enabled. -/
def Orderly (s : Callers) : CallerOp → Prop
  | .judge _ _ call => s.Settled call.key ∧ 0 < policy.bAuthPolicyMaxTries.toNat
  | .write thread _ => ∀ pending, s.pending.get thread = some pending → pending.disables policy = true →
      s.db.Another pending.key.1 fun attribs => attribs.superuser && attribs.enabled
  | .resetBadAttempts _ _ => True

/-- Never more wrong guesses than the policy allows, and after the last of them the account is disabled. -/
def LockedOut (s : Callers) : Prop :=
  ∀ key : Key, s.guesses key ≤ policy.bAuthPolicyMaxTries.toNat ∧
    (s.Settled key → 0 < s.guesses key → s.guesses key = policy.bAuthPolicyMaxTries.toNat →
      s.db.isAccountDisabled key.1 = true)

end

end Callers

namespace Database

/-! ## What the writes leave -/

section
variable {db : Database}

/-- Account and secret are both there. -/
def Stored (db : Database) (key : Key) : Prop :=
  (db.accounts.get key.1).isSome = true ∧ (db.secrets.get key).isSome = true

def attempts (db : Database) (key : Key) : Nat := (db.secrets.get key).elim 0 Secret.badAttempts

theorem get_setBadAttempts (sAccountName : String) (passIndex : PassIndex) (change : Nat → Nat) (key : Key) :
    (db.setBadAttempts sAccountName passIndex change).secrets.get key =
      if key = (sAccountName, passIndex) then
        (db.secrets.get key).map fun secret => { secret with badAttempts := change secret.badAttempts }
      else db.secrets.get key := by
  unfold setBadAttempts
  cases found : db.secrets.get (sAccountName, passIndex) with
  | none =>
    by_cases same : key = (sAccountName, passIndex)
    · simp [same, found]
    · simp [same]
  | some secret =>
    simp only [get_insert]
    by_cases same : key = (sAccountName, passIndex)
    · simp [same, found]
    · simp [same]

@[simp] theorem accounts_setBadAttempts (sAccountName : String) (passIndex : PassIndex) (change : Nat → Nat) :
    (db.setBadAttempts sAccountName passIndex change).accounts = db.accounts := by
  unfold setBadAttempts
  split <;> rfl

@[simp] theorem secrets_setAttribs (sAccountName : String) (change : AccountAttribs → AccountAttribs) :
    (db.setAttribs sAccountName change).secrets = db.secrets := by
  unfold setAttribs
  split <;> rfl

/-- A write of `authenticate`: nothing is added or removed, nothing is enabled, and
outside its own secret no attempt is counted. -/
structure Writes (key : Key) (db next : Database) : Prop where
  stored : ∀ other, next.Stored other ↔ db.Stored other
  disabled : ∀ name, db.isAccountDisabled name = true → next.isAccountDisabled name = true
  attempts : ∀ other, other ≠ key → next.attempts other = db.attempts other

theorem writes_setBadAttempts (db : Database) (key : Key) (change : Nat → Nat) :
    Writes key db (db.setBadAttempts key.1 key.2 change) := by
  constructor
  case stored =>
    intro other
    simp only [Stored, accounts_setBadAttempts, get_setBadAttempts]
    split <;> simp
  case disabled =>
    intro name disabled
    simpa [isAccountDisabled] using disabled
  case attempts =>
    intro other different
    simp only [Database.attempts, get_setBadAttempts]
    rw [if_neg different]

theorem attempts_setBadAttempts (key : Key) {change : Nat → Nat} (stored : db.Stored key) :
    (db.setBadAttempts key.1 key.2 change).attempts key = change (db.attempts key) := by
  obtain ⟨secret, found⟩ := Option.isSome_iff_exists.mp stored.2
  simp [Database.attempts, get_setBadAttempts, found]

theorem writes_updateLastLogin (db : Database) (key : Key) (now : Time) : Writes key db (db.updateLastLogin now key.1) := by
  unfold updateLastLogin
  cases found : db.accounts.get key.1 with
  | none => exact ⟨fun _ => Iff.rfl, fun _ disabled => disabled, fun _ _ => rfl⟩
  | some account =>
    constructor
    case stored =>
      intro other
      simp only [Stored, get_insert]
      by_cases same : other.1 = key.1
      · simp [same, found]
      · simp [same]
    case disabled =>
      intro name disabled
      simp only [isAccountDisabled, get_insert] at disabled ⊢
      by_cases same : name = key.1
      · simpa [same, found] using disabled
      · simpa [same] using disabled
    case attempts => exact fun _ _ => rfl

/-- With another enabled superuser about, the account is disabled. -/
theorem writes_accountDisable {key : Key}
    (another : db.Another key.1 fun attribs => attribs.superuser && attribs.enabled) :
    Writes key db (db.accountDisable .working key.1 true).2 ∧
      (db.accountDisable .working key.1 true).2.isAccountDisabled key.1 = true ∧
      (db.accountDisable .working key.1 true).2.attempts key = db.attempts key := by
  have guard := (isThereAnotherSuperUser_iff .working key.1).mpr ⟨rfl, another⟩
  have written : (db.accountDisable .working key.1 true).2 =
      db.setAttribs key.1 fun attribs => { attribs with enabled := !true } := by
    simp only [accountDisable, guard]
    rfl
  rw [written]
  refine ⟨⟨?_, ?_, ?_⟩, ?_, ?_⟩
  case _ =>
    intro other
    simp only [Stored, secrets_setAttribs, get_setAttribs]
    split <;> simp
  case _ =>
    intro name disabled
    simp only [isAccountDisabled, get_setAttribs] at disabled ⊢
    by_cases same : name = key.1
    · cases db.accounts.get name <;> simp [same]
    · simpa [same] using disabled
  case _ => simp [Database.attempts]
  case _ =>
    simp only [isAccountDisabled, get_setAttribs]
    cases db.accounts.get key.1 <;> simp
  case _ => simp [Database.attempts]

end

end Database

namespace Callers

/-! ## The counter follows the guesses -/

section
variable {crypto : Crypto} {policy : Policy} {s : Callers} {key : Key}

/-- What holds of one secret between any two steps. -/
structure Kept (policy : Policy) (s : Callers) (key : Key) : Prop where
  unstored : ¬ s.db.Stored key → s.guesses key = 0
  small : s.db.Stored key → s.db.attempts key + 1 < 2 ^ 32
  settled : s.Settled key → s.db.Stored key →
    s.guesses key ≤ s.db.attempts key ∧ (s.guesses key = 0 ∨ s.guesses key < policy.bAuthPolicyMaxTries.toNat) ∨
      s.guesses key ≤ policy.bAuthPolicyMaxTries.toNat ∧ s.db.isAccountDisabled key.1 = true
  alone : ∀ thread pending other twin, s.pending.get thread = some pending → s.pending.get other = some twin →
    pending.key = key → twin.key = key → thread = other
  failed : ∀ thread pending, s.pending.get thread = some pending → pending.key = key →
    isPasswordAuthenticated pending.ret = false → s.db.Stored key →
    s.db.attempts key ≤ pending.badAttempts ∧ pending.badAttempts + 1 < 2 ^ 32 ∧
      s.guesses key ≤ s.db.attempts key + 1 ∧ s.guesses key ≤ policy.bAuthPolicyMaxTries.toNat
  succeeded : ∀ thread pending, s.pending.get thread = some pending → pending.key = key →
    isPasswordAuthenticated pending.ret = true → s.guesses key = 0

theorem Kept.lockedOut (kept : Kept policy s key) : s.guesses key ≤ policy.bAuthPolicyMaxTries.toNat ∧
    (s.Settled key → 0 < s.guesses key → s.guesses key = policy.bAuthPolicyMaxTries.toNat →
      s.db.isAccountDisabled key.1 = true) := by
  by_cases stored : s.db.Stored key
  · by_cases settled : s.Settled key
    · rcases kept.settled settled stored with ⟨_, none | fewer⟩ | ⟨bounded, disabled⟩
      · omega
      · omega
      · exact ⟨bounded, fun _ _ _ => disabled⟩
    · constructor
      · simp only [Settled, not_forall, not_not] at settled
        obtain ⟨thread, pending, found, own⟩ := settled
        by_cases authenticated : isPasswordAuthenticated pending.ret = true
        · have none := kept.succeeded thread pending found own authenticated
          omega
        · exact (kept.failed thread pending found own (Bool.eq_false_iff.mpr authenticated) stored).2.2.2
      · intro now
        exact absurd now settled
  · have none := kept.unstored stored
    omega

/-- A step about another secret. -/
theorem Kept.frame {next : Callers} (kept : Kept policy s key) (guesses : next.guesses key = s.guesses key)
    (stored : next.db.Stored key ↔ s.db.Stored key) (attempts : next.db.attempts key = s.db.attempts key)
    (disabled : s.db.isAccountDisabled key.1 = true → next.db.isAccountDisabled key.1 = true)
    (pending : ∀ thread pending, pending.key = key →
      (next.pending.get thread = some pending ↔ s.pending.get thread = some pending)) : Kept policy next key := by
  have settled : next.Settled key ↔ s.Settled key := by
    constructor
    · intro free thread p found own
      exact free thread p ((pending thread p own).mpr found) own
    · intro free thread p found own
      exact free thread p ((pending thread p own).mp found) own
  constructor
  case unstored =>
    rw [stored, guesses]
    exact kept.unstored
  case small =>
    rw [stored, attempts]
    exact kept.small
  case settled =>
    rw [settled, stored, guesses, attempts]
    intro free held
    rcases kept.settled free held with counted | ⟨bounded, shut⟩
    · exact .inl counted
    · exact .inr ⟨bounded, disabled shut⟩
  case alone =>
    intro thread p other twin found also own same
    exact kept.alone thread p other twin ((pending thread p own).mp found) ((pending other twin same).mp also) own same
  case failed =>
    intro thread p found own refused held
    rw [guesses, attempts]
    exact kept.failed thread p ((pending thread p own).mp found) own refused (stored.mp held)
  case succeeded =>
    intro thread p found own authenticated
    rw [guesses]
    exact kept.succeeded thread p ((pending thread p own).mp found) own authenticated

/-! ## The judgement -/

theorem retrieveSecret_stored {db : Database} (stored : db.Stored key) :
    ∃ secret, db.retrieveSecret key.1 key.2 = (secret, true, true) ∧
      secret.badAttempts = db.attempts key % 2 ^ 32 := by
  obtain ⟨secret, found⟩ := Option.isSome_iff_exists.mp stored.2
  refine ⟨{ secret with badAttempts := secret.badAttempts % 2 ^ 32 }, ?_, ?_⟩
  · simp [Database.retrieveSecret, Database.accountExist, stored.1, found]
  · simp [Database.attempts, found]

/-- A guess is judged by a secret that is stored, of an account that is enabled;
unless the call is over, it goes by this verdict and by the secret's own counter. -/
structure Judged (db : Database) (key : Key) (judged : Judgement) : Prop where
  stored : judged.verdict.isSome = true → db.Stored key ∧ db.isAccountDisabled key.1 = false
  counter : db.Stored key → judged.returns = false → judged.badAttempts = db.attempts key % 2 ^ 32
  refused : ∀ verdict, judged.verdict = some verdict → isPasswordAuthenticated verdict = false →
    judged.returns = false
  ret : ∀ verdict, judged.verdict = some verdict → judged.returns = false → judged.ret = verdict
  unasked : judged.verdict = none → judged.returns = false → isPasswordAuthenticated judged.ret = false ∧ ¬ db.Stored key

theorem judged_of_returns {db : Database} {key : Key} {ret : Reason} {badAttempts : Nat} :
    Judged db key ⟨ret, true, badAttempts, none⟩ := by
  constructor <;> simp

theorem judge_judged (crypto : Crypto) (policy : Policy) (db : Database) (now : Time) (call : Call) :
    Judged db call.key (Auth.judge crypto policy db now call) := by
  unfold Auth.judge
  split
  case isFalse => exact judged_of_returns
  by_cases stored : db.Stored call.key
  · obtain ⟨secret, retrieved, counter⟩ := retrieveSecret_stored stored
    have read : db.retrieveSecret call.sAccountName call.passIndex = (secret, true, true) := retrieved
    simp only [read, Bool.true_eq_false, if_false]
    split
    case isTrue => exact judged_of_returns
    split
    case isTrue => exact judged_of_returns
    rename_i enabled
    split
    case isTrue => exact judged_of_returns
    split
    case isTrue => exact judged_of_returns
    have open_ : db.isAccountDisabled call.key.1 = false := Bool.eq_false_iff.mpr enabled
    split
    · rename_i first
      constructor <;> simp [stored, open_, first.1]
    · constructor <;> simp [stored, open_, counter]
  · -- without account or index there is nothing to ask
    have missing : (db.retrieveSecret call.sAccountName call.passIndex).2.1 = false ∨
        (db.retrieveSecret call.sAccountName call.passIndex).2.2 = false := by
      unfold Database.retrieveSecret
      by_cases found : (db.accounts.get call.sAccountName).isSome = true
      · have absent : db.secrets.get (call.sAccountName, call.passIndex) = none :=
          Option.not_isSome_iff_eq_none.mp fun held => stored ⟨found, held⟩
        simp [Database.accountExist, found, absent]
      · simp [Database.accountExist, found]
    rcases missing with account | index
    · simp only [account, if_true]
      constructor <;> simp [stored, isPasswordAuthenticated]
    · simp only [index, if_true]
      split <;> constructor <;> simp [stored, isPasswordAuthenticated]

theorem guessed_other {guesses : Key → Nat} {other : Key} (judged : Judgement) (different : other ≠ key) :
    guessed guesses key judged other = guesses other := by
  unfold guessed
  cases judged.verdict with
  | none => rfl
  | some verdict =>
    by_cases right : isPasswordAuthenticated verdict = true
    · by_cases returns : judged.returns = true
      · simp [right, returns]
      · simp [right, returns, different]
    · simp [right, different]

theorem Kept.judge (kept : Kept policy s key) (thread : Nat) (now : Time) (call : Call)
    (orderly : s.Orderly policy (.judge thread now call)) :
    Kept policy (step crypto policy s (.judge thread now call)) key := by
  obtain ⟨settled, tries⟩ := orderly
  simp only [step]
  cases busy : s.pending.get thread with
  | some _ => exact kept
  | none =>
    have judged := judge_judged crypto policy s.db now call
    generalize Auth.judge crypto policy s.db now call = j at judged
    by_cases own : call.key = key
    · subst own
      cases returns : j.returns with
      | true =>
        -- nothing is left to write, and no guess was wrong
        have same : guessed s.guesses call.key j = s.guesses := by
          unfold guessed
          cases asked : j.verdict with
          | none => rfl
          | some verdict =>
            by_cases authenticated : isPasswordAuthenticated verdict = true
            · simp [authenticated, returns]
            · have goes := judged.refused verdict asked (Bool.eq_false_iff.mpr authenticated)
              simp [returns] at goes
        simp only [same, if_true]
        exact kept
      | false =>
        have mine : ∀ other pending,
            Table.get (s.pending.insert thread ⟨call.key, j.ret, j.badAttempts, false⟩) other = some pending →
            pending.key = call.key → other = thread ∧ pending = ⟨call.key, j.ret, j.badAttempts, false⟩ := by
          intro other pending found held
          rw [get_insert] at found
          split at found
          · rename_i at_thread
            exact ⟨at_thread, (Option.some.inj found).symm⟩
          · exact absurd held (settled other pending found)
        simp only [Bool.false_eq_true, if_false]
        constructor
        case unstored =>
          intro unstored
          have unasked : j.verdict = none := by
            by_contra asked
            exact unstored (judged.stored (Option.isSome_iff_ne_none.mpr asked)).1
          simp only [guessed, unasked]
          exact kept.unstored unstored
        case small => exact kept.small
        case settled =>
          intro free
          exact absurd rfl (free thread _ (get_insert_self s.pending thread _))
        case alone =>
          intro one pending other twin found also own same
          exact (mine one pending found own).1.trans (mine other twin also same).1.symm
        case failed =>
          intro other pending found own refused stored
          obtain ⟨_, rfl⟩ := mine other pending found own
          have small := kept.small stored
          have counter := judged.counter stored returns
          have before := kept.settled settled stored
          cases asked : j.verdict with
          | none => exact absurd stored (judged.unasked asked returns).2
          | some verdict =>
            have enabled := (judged.stored (by simp [asked])).2
            have wrong : isPasswordAuthenticated verdict = false := by
              rw [← judged.ret verdict asked returns]
              exact refused
            simp only [guessed, asked, wrong, Bool.false_eq_true, if_false, Function.update_self]
            simp only [enabled, Bool.false_eq_true, and_false, or_false] at before
            omega
        case succeeded =>
          intro other pending found own authenticated
          obtain ⟨_, rfl⟩ := mine other pending found own
          cases asked : j.verdict with
          | none =>
            have refused := (judged.unasked asked returns).1
            simp [authenticated] at refused
          | some verdict =>
            have right : isPasswordAuthenticated verdict = true := by
              rw [← judged.ret verdict asked returns]
              exact authenticated
            simp [guessed, asked, right, returns]
    · apply kept.frame
      case guesses => exact guessed_other j (Ne.symm own)
      case stored => exact Iff.rfl
      case attempts => rfl
      case disabled => exact id
      case pending =>
        intro other pending held
        simp only
        split
        · exact Iff.rfl
        · rw [get_insert]
          split
          · rename_i at_thread
            rw [at_thread, busy]
            constructor
            · intro same
              cases same
              exact absurd held own
            · intro none
              cases none
          · exact Iff.rfl

/-! ## The writes -/

/-- What the call leaves of its own secret's invariant when it has written everything. -/
theorem Kept.written {next : Callers} {thread : Nat} {pending : Pending} (kept : Kept policy s pending.key)
    (found : s.pending.get thread = some pending) (guesses : next.guesses = s.guesses)
    (erased : next.pending = s.pending.erase thread) (writes : Database.Writes pending.key s.db next.db)
    (small : s.db.Stored pending.key → next.db.attempts pending.key + 1 < 2 ^ 32)
    (counted : s.db.Stored pending.key →
      s.guesses pending.key ≤ next.db.attempts pending.key ∧
          (s.guesses pending.key = 0 ∨ s.guesses pending.key < policy.bAuthPolicyMaxTries.toNat) ∨
        s.guesses pending.key ≤ policy.bAuthPolicyMaxTries.toNat ∧ next.db.isAccountDisabled pending.key.1 = true) :
    Kept policy next pending.key := by
  have free : next.Settled pending.key := by
    intro other twin also same
    rw [erased, get_erase] at also
    split at also
    · cases also
    · rename_i different
      exact different (kept.alone other twin thread pending also found same rfl)
  constructor
  case unstored =>
    rw [writes.stored, guesses]
    exact kept.unstored
  case small =>
    rw [writes.stored]
    exact small
  case settled =>
    intro _
    rw [writes.stored, guesses]
    exact counted
  case alone =>
    intro one p other twin found also own same
    exact absurd own (free one p found)
  case failed =>
    intro other p found own
    exact absurd own (free other p found)
  case succeeded =>
    intro other p found own
    exact absurd own (free other p found)

@[simp] theorem secrets_updateLastLogin (db : Database) (now : Time) (sAccountName : String) :
    (db.updateLastLogin now sAccountName).secrets = db.secrets := by
  unfold Database.updateLastLogin
  split <;> rfl

/-- The first of the two writes after a success leaves the second. -/
theorem Kept.lastLogin {thread : Nat} {pending : Pending} (kept : Kept policy s pending.key) (now : Time)
    (found : s.pending.get thread = some pending) (authenticated : isPasswordAuthenticated pending.ret = true) :
    Kept policy { s with
      db := s.db.updateLastLogin now pending.key.1
      pending := s.pending.insert thread { pending with lastLoginUpdated := true } } pending.key := by
  have writes := Database.writes_updateLastLogin s.db pending.key now
  have none := kept.succeeded thread pending found rfl authenticated
  have known : ∀ other twin,
      Table.get (s.pending.insert thread { pending with lastLoginUpdated := true }) other = some twin →
      twin.key = pending.key → other = thread ∧ twin.ret = pending.ret := by
    intro other twin also same
    rw [get_insert] at also
    split at also
    · rename_i at_thread
      cases also
      exact ⟨at_thread, rfl⟩
    · rename_i different
      exact absurd (kept.alone other twin thread pending also found same rfl) different
  constructor
  case unstored => exact fun _ => none
  case small =>
    intro stored
    simpa [Database.attempts] using kept.small ((writes.stored _).mp stored)
  case settled =>
    intro free
    exact absurd rfl (free thread { pending with lastLoginUpdated := true } (get_insert_self s.pending thread _))
  case alone =>
    intro one p other twin first also own same
    exact (known one p first own).1.trans (known other twin also same).1.symm
  case failed =>
    intro other twin also same refused
    rw [(known other twin also same).2, authenticated] at refused
    cases refused
  case succeeded => exact fun _ _ _ _ _ => none

/-- The four writes: the two after a success, and the two after a wrong guess. -/
theorem registerChange_cases (policy : Policy) (db : Database) (now : Time) (pending : Pending) :
    isPasswordAuthenticated pending.ret = true ∧
        (registerChange policy db now pending = (db.resetBadAttempts pending.key.1 pending.key.2, none) ∨
          registerChange policy db now pending =
            (db.updateLastLogin now pending.key.1, some { pending with lastLoginUpdated := true })) ∨
      isPasswordAuthenticated pending.ret = false ∧
        (pending.disables policy = true ∧
            registerChange policy db now pending = ((db.accountDisable .working pending.key.1 true).2, none) ∨
          (pending.badAttempts + 1) % 2 ^ 32 < policy.bAuthPolicyMaxTries.toNat ∧
            registerChange policy db now pending = (db.incrementBadAttempts pending.key.1 pending.key.2, none)) := by
  unfold registerChange
  by_cases authenticated : isPasswordAuthenticated pending.ret = true
  · left
    by_cases updated : pending.lastLoginUpdated = true
    · simp [authenticated, updated]
    · simp [authenticated, updated]
  · right
    by_cases disables : pending.disables policy = true
    · simp [authenticated, disables]
    · have fewer : (pending.badAttempts + 1) % 2 ^ 32 < policy.bAuthPolicyMaxTries.toNat := by
        simpa [Pending.disables, authenticated] using disables
      simp only [authenticated, disables]
      exact ⟨trivial, .inr ⟨fewer, rfl⟩⟩

theorem Kept.write (kept : ∀ key, Kept policy s key) (thread : Nat) (now : Time)
    (orderly : s.Orderly policy (.write thread now)) (key : Key) :
    Kept policy (step crypto policy s (.write thread now)) key := by
  simp only [step]
  cases found : s.pending.get thread with
  | none => exact kept key
  | some pending =>
    have own := kept pending.key
    -- what the write does to its own secret, and to the others
    have written : Kept policy (step crypto policy s (.write thread now)) pending.key ∧
        Database.Writes pending.key s.db (registerChange policy s.db now pending).1 ∧
        ∀ rest, (registerChange policy s.db now pending).2 = some rest → rest.key = pending.key := by
      simp only [step, found]
      rcases registerChange_cases policy s.db now pending with
        ⟨authenticated, reset | lastLogin⟩ | ⟨refused, ⟨disables, disable⟩ | ⟨fewer, increment⟩⟩
      · have none := own.succeeded thread pending found rfl authenticated
        have writes := Database.writes_setBadAttempts s.db pending.key fun _ => 0
        simp only [reset]
        refine ⟨own.written found rfl rfl writes ?_ ?_, writes, by simp⟩
        · intro stored
          rw [Database.resetBadAttempts, Database.attempts_setBadAttempts pending.key stored]
          omega
        · intro _
          rw [none]
          exact .inl ⟨Nat.zero_le _, .inl rfl⟩
      · simp only [lastLogin]
        refine ⟨own.lastLogin now found authenticated, Database.writes_updateLastLogin s.db pending.key now, ?_⟩
        intro rest same
        cases same
        rfl
      · have attempted := own.failed thread pending found rfl refused
        obtain ⟨writes, disabled, counted⟩ := Database.writes_accountDisable (orderly pending found disables)
        simp only [disable]
        refine ⟨own.written found rfl rfl writes ?_ ?_, writes, by simp⟩
        · intro stored
          rw [counted]
          exact own.small stored
        · intro stored
          exact .inr ⟨(attempted stored).2.2.2, disabled⟩
      · have attempted := own.failed thread pending found rfl refused
        have writes := Database.writes_setBadAttempts s.db pending.key (· + 1)
        have bound := policy.bAuthPolicyMaxTries.toNat_lt
        simp only [increment]
        refine ⟨own.written found rfl rfl writes ?_ ?_, writes, by simp⟩
        · intro stored
          have known := attempted stored
          rw [Nat.mod_eq_of_lt known.2.1] at fewer
          rw [Database.incrementBadAttempts, Database.attempts_setBadAttempts pending.key stored]
          omega
        · intro stored
          have known := attempted stored
          rw [Nat.mod_eq_of_lt known.2.1] at fewer
          rw [Database.incrementBadAttempts, Database.attempts_setBadAttempts pending.key stored]
          left
          omega
    obtain ⟨mine, writes, rests⟩ := written
    by_cases same : key = pending.key
    · subst same
      simpa only [step, found] using mine
    · apply (kept key).frame
      case guesses => rfl
      case stored => exact writes.stored key
      case attempts => exact writes.attempts key same
      case disabled => exact writes.disabled key.1
      case pending =>
        intro other twin held
        -- the thread's own call is on another secret, before and after
        have before : s.pending.get thread ≠ some twin := by
          intro at_thread
          rw [found] at at_thread
          cases at_thread
          exact same held.symm
        cases rest : (registerChange policy s.db now pending).2 with
        | none =>
          simp only [rest, get_erase]
          by_cases at_thread : other = thread
          · simp [at_thread, before]
          · simp [at_thread]
        | some left_ =>
          have after : left_ ≠ twin := by
            intro equal
            rw [← equal, rests left_ rest] at held
            exact same held.symm
          simp only [rest, get_insert]
          by_cases at_thread : other = thread
          · simp [at_thread, before, after]
          · simp [at_thread]

theorem Kept.reset (kept : Kept policy s key) (sAccountName : String) (passIndex : PassIndex) :
    Kept policy (step crypto policy s (.resetBadAttempts sAccountName passIndex)) key := by
  have writes := Database.writes_setBadAttempts s.db (sAccountName, passIndex) fun _ => 0
  by_cases own : key = (sAccountName, passIndex)
  · subst own
    have none : (step crypto policy s (.resetBadAttempts sAccountName passIndex)).guesses (sAccountName, passIndex) =
        0 := Function.update_self _ _ _
    have zero : s.db.Stored (sAccountName, passIndex) →
        (s.db.resetBadAttempts sAccountName passIndex).attempts (sAccountName, passIndex) = 0 := fun stored =>
      Database.attempts_setBadAttempts (sAccountName, passIndex) stored
    constructor
    case unstored => exact fun _ => none
    case small =>
      intro stored
      rw [step, zero ((writes.stored _).mp stored)]
      omega
    case settled =>
      intro _ _
      rw [none]
      exact .inl ⟨Nat.zero_le _, .inl rfl⟩
    case alone => exact kept.alone
    case failed =>
      intro thread pending found same refused stored
      have known := kept.failed thread pending found same refused ((writes.stored _).mp stored)
      rw [none, step, zero ((writes.stored _).mp stored)]
      omega
    case succeeded => exact fun _ _ _ _ _ => none
  · apply kept.frame
    case guesses => exact Function.update_of_ne own _ _
    case stored => exact writes.stored key
    case attempts => exact writes.attempts key own
    case disabled => exact writes.disabled key.1
    case pending => exact fun _ _ _ => Iff.rfl

theorem kept_step (kept : ∀ key, Kept policy s key) (op : CallerOp) (orderly : s.Orderly policy op) (key : Key) :
    Kept policy (step crypto policy s op) key := by
  cases op with
  | judge thread now call => exact (kept key).judge thread now call orderly
  | write thread now => exact Kept.write kept thread now orderly key
  | resetBadAttempts sAccountName passIndex => exact (kept key).reset sAccountName passIndex

end

/-! ## Every schedule -/

def start (db : Database) : Callers := ⟨db, ∅, fun _ => 0⟩

theorem lockedOut_run (crypto : Crypto) (policy : Policy) (db : Database) (run : List CallerOp)
    (small : ∀ key secret, db.secrets.get key = some secret → secret.badAttempts + 1 < 2 ^ 32)
    (orderly : Along (step crypto policy) (Orderly policy) (start db) run) :
    ∀ s ∈ visited (step crypto policy) (start db) run, LockedOut policy s := by
  have begin : ∀ key, Kept policy (start db) key := by
    intro key
    constructor
    case unstored => exact fun _ => rfl
    case small =>
      intro stored
      obtain ⟨secret, found⟩ := Option.isSome_iff_exists.mp stored.2
      have counted : (start db).db.attempts key = secret.badAttempts := by
        rw [Database.attempts, found]
        rfl
      rw [counted]
      exact small key secret found
    case settled => exact fun _ _ => .inl ⟨Nat.zero_le _, .inl rfl⟩
    case alone => exact fun _ _ _ _ found => nomatch found
    case failed => exact fun _ _ found => nomatch found
    case succeeded => exact fun _ _ found => nomatch found
  have kept := along_visited (fun s => ∀ key, Kept policy s key)
    (fun _ op held allowed key => kept_step held op allowed key) (start db) run begin orderly
  intro s member key
  exact (kept s member key).lockedOut

/-- Hash functions of no use: the secret below is kept as it is. -/
def plainCrypto : Crypto := ⟨id, id, fun password _ => password, fun password _ => password⟩

/-- Half a year before an account counts as abandoned. -/
def tries (bAuthPolicyMaxTries : UInt32) : Policy := ⟨bAuthPolicyMaxTries, 15552000⟩

/-- The administrator's account and password, and the superusers besides. -/
def administration (others : List String) : Database where
  accounts := others.foldl (fun table name => table.insert name ⟨⟨true, true, true⟩, 0, 0⟩)
    ((∅ : Table String Account).insert "admin" ⟨⟨true, true, true⟩, 0, 0⟩)
  secrets := (∅ : Table Key Secret).insert ("admin", 0) ⟨.plain, "secret", [], 0, false, 0, 0⟩
  secretsIndexs := (∅ : Table PassIndex SecretIndex).insert 0 ⟨"Master Login Password", true⟩
  applicationUsers := [("app", "admin")]

def guess : List CallerOp := [.judge 0 10 ⟨"app", "admin", "letmein", 0, .plain, "", false⟩, .write 0 10]

theorem administration_small (others : List String) (key : Key) (secret : Secret)
    (found : (administration others).secrets.get key = some secret) : secret.badAttempts + 1 < 2 ^ 32 := by
  simp only [administration, get_insert] at found
  split at found
  · cases found
    decide
  · cases found

/-- One wrong guess locks the account, when another superuser is left. -/
theorem lockedOut_run_once :
    (visited (step plainCrypto (tries 1)) (start (administration ["bob"])) guess).Forall (LockedOut (tries 1)) := by
  rw [List.forall_iff_forall_mem]
  apply lockedOut_run plainCrypto (tries 1) _ guess (administration_small ["bob"])
  refine ⟨⟨fun _ _ found => (nomatch found), by decide⟩, fun pending found _ => ?_, trivial⟩
  have own : pending.key.1 = "admin" := by
    cases found
    rfl
  refine ⟨"bob", ⟨⟨true, true, true⟩, 0, 0⟩, ?_, ?_, rfl⟩
  · rw [own]
    decide
  · rfl

/-- The password of the last superuser may be guessed without end. -/
theorem lockedOut_run_fails :
    ¬ ∀ (crypto : Crypto) (policy : Policy) (db : Database) (run : List CallerOp),
      (∀ key secret, db.secrets.get key = some secret → secret.badAttempts + 1 < 2 ^ 32) →
      ∀ s ∈ visited (step crypto policy) (start db) run, LockedOut policy s := by
  intro claim
  have run := claim plainCrypto (tries 4) (administration []) (List.replicate 5 guess).flatten
    (administration_small []) _ (reached_visited _ _ _)
  have few := (run ("admin", 0)).1
  have many : (reached (step plainCrypto (tries 4)) (start (administration []))
      (List.replicate 5 guess).flatten).guesses ("admin", 0) = 5 := by decide +kernel
  rw [many] at few
  exact absurd few (by decide)

end Callers

end Mantids.Auth
