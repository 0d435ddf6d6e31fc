import Mantids.Auth.Manager

/-! How a secret is made (`ds_auth_secret.h`), stored and read back (`manager_db_accounts.cpp`).
A column keeps what is bound to it, and the tables keep their keys. -/

set_option autoImplicit false

namespace Mantids.Auth

open Library

/-! ## The codec of the salt -/

namespace Encoders

/-- As `%X` prints it. -/
def hexDigit (value : UInt8) : Char :=
  if value < 10 then Char.ofNat (48 + value.toNat) else Char.ofNat (55 + value.toNat)

def toHex (data : List UInt8) : String :=
  String.ofList (data.flatMap fun byte => [hexDigit (byte / 16), hexDigit (byte % 16)])

/-- Zero for what is no hexadecimal digit. -/
def hexToValue (v : Char) : UInt8 :=
  if '0' ≤ v ∧ v ≤ '9' then UInt8.ofNat (v.toNat - 48)
  else if 'A' ≤ v ∧ v ≤ 'F' then UInt8.ofNat (v.toNat - 65 + 10)
  else if 'a' ≤ v ∧ v ≤ 'f' then UInt8.ofNat (v.toNat - 97 + 10)
  else 0

def hexPairs : List Char → List UInt8
  | first :: second :: rest => (hexToValue first * 16 + hexToValue second) :: hexPairs rest
  | _ => []

/-- The bytes that the text does not reach are left as they are. -/
def fromHex (hexValue : String) (data : List UInt8) (maxlen : Nat) : List UInt8 :=
  let bytes := (hexPairs hexValue.toList).take maxlen
  bytes ++ data.drop bytes.length

end Encoders

/-! ## A new secret -/

abbrev Salt := { ssalt : List UInt8 // ssalt.length = 4 }

/-- The random salt is drawn for the salted functions only, and the steps are kept only for tokens. -/
def createNewSecret (crypto : Crypto) (randomSalt : Salt) (passwordInput : String) (passFunction : PasswordFunction)
    (forceExpiration : Bool) (expirationDate : Time) (_2faSteps : UInt32) : Secret :=
  let r : Secret :=
    { Secret.none with
      passwordFunction := passFunction
      forceExpiration := forceExpiration
      expiration := expirationDate }
  match passFunction with
  | .notFound => r
  | .plain => { r with hash := passwordInput }
  | .sha256 => { r with hash := crypto.calcSHA256 passwordInput }
  | .sha512 => { r with hash := crypto.calcSHA512 passwordInput }
  | .ssha256 => { r with ssalt := randomSalt, hash := crypto.calcSSHA256 passwordInput randomSalt }
  | .ssha512 => { r with ssalt := randomSalt, hash := crypto.calcSSHA512 passwordInput randomSalt }
  | .gAuthTime => { r with hash := passwordInput, gAuthSteps := _2faSteps }

namespace PasswordFunction

/-- The number of the enumerator. -/
def code : PasswordFunction → UInt32
  | notFound => 500
  | plain => 0
  | sha256 => 1
  | sha512 => 2
  | ssha256 => 3
  | ssha512 => 4
  | gAuthTime => 5

/-- The cast back; no other number is ever stored. -/
def ofCode (function : UInt32) : PasswordFunction :=
  if function = 0 then plain
  else if function = 1 then sha256
  else if function = 2 then sha512
  else if function = 3 then ssha256
  else if function = 4 then ssha512
  else if function = 5 then gAuthTime
  else notFound

/-- What a password is compared by, for the functions that hash it. -/
def hashing (crypto : Crypto) : PasswordFunction → Option (List UInt8 → String → String)
  | notFound | gAuthTime => none
  | plain => some fun _ password => password
  | sha256 => some fun _ password => crypto.calcSHA256 password
  | sha512 => some fun _ password => crypto.calcSHA512 password
  | ssha256 => some fun ssalt password => crypto.calcSSHA256 password ssalt
  | ssha512 => some fun ssalt password => crypto.calcSSHA512 password ssalt

end PasswordFunction

/-! ## The table of secrets -/

/-- The values that are bound to a column. -/
inductive Value where
  | null
  | uint32 (value : UInt32)
  | string (value : String)
  | datetime (value : Time)
  | bool (value : Bool)
  deriving DecidableEq

namespace Value

/-- A variable that a null is read into keeps its first value. -/
def getUInt32 : Value → UInt32
  | uint32 value => value
  | _ => 0

def getString : Value → String
  | string value => value
  | _ => ""

def getDatetime : Value → Time
  | datetime value => value
  | _ => 0

def getBool : Value → Bool
  | bool value => value
  | _ => false

end Value

/-- The columns of `vauth_v3_accountsecrets`. -/
inductive SecretColumn where
  | f_secretIndex
  | f_userName
  | hash
  | expiration
  | function
  | salt
  | forcedExpiration
  | steps
  | badAttempts
  deriving DecidableEq

def SecretColumn.default : SecretColumn → Value
  | function | steps | badAttempts => .uint32 0
  | forcedExpiration => .bool false
  | _ => .null

abbrev SecretRow := SecretColumn → Value

/-- The row of an INSERT: the values go to the columns in the order of the two lists. -/
def SecretRow.ofInsert (columns : List SecretColumn) (values : List Value) : SecretRow := fun column =>
  ((columns.zip values).lookup column).getD column.default

/-- The primary key. -/
def SecretRow.Has (row : SecretRow) (sAccountName : String) (passIndex : PassIndex) : Prop :=
  row .f_userName = .string sAccountName ∧ row .f_secretIndex = .uint32 passIndex

instance (row : SecretRow) (sAccountName : String) (passIndex : PassIndex) : Decidable (row.Has sAccountName passIndex) :=
  inferInstanceAs (Decidable (_ ∧ _))

structure SecretStore where
  accounts : Table String Account
  secretsIndexs : Table PassIndex SecretIndex
  accountsecrets : List SecretRow

namespace SecretStore

def deleteSecret (store : SecretStore) (sql : Connector) (sAccountName : String) (passIndex : PassIndex) : SecretStore :=
  if sql.executes then
    { store with accountsecrets := store.accountsecrets.filter fun row => ¬row.Has sAccountName passIndex }
  else store

/-- Refused when a foreign key has no row to refer to, or the primary key is in use. -/
def insertSecret (store : SecretStore) (sql : Connector) (sAccountName : String) (passIndex : PassIndex)
    (row : SecretRow) : Bool × SecretStore :=
  if sql.executes ∧ (store.accounts.get sAccountName).isSome ∧ (store.secretsIndexs.get passIndex).isSome ∧
      ∀ other ∈ store.accountsecrets, ¬other.Has sAccountName passIndex then
    (true, { store with accountsecrets := store.accountsecrets ++ [row] })
  else (false, store)

/-- The result of the DELETE is not looked at. -/
def accountChangeSecret (store : SecretStore) (deletes inserts : Connector) (sAccountName : String)
    (passwordData : Secret) (passIndex : PassIndex) : Bool × SecretStore :=
  (store.deleteSecret deletes sAccountName passIndex).insertSecret inserts sAccountName passIndex
    (.ofInsert [.f_secretIndex, .f_userName, .hash, .expiration, .function, .salt, .forcedExpiration, .steps]
      [.uint32 passIndex, .string sAccountName, .string passwordData.hash, .datetime passwordData.expiration,
        .uint32 passwordData.passwordFunction.code, .string (Encoders.toHex passwordData.ssalt),
        .bool passwordData.forceExpiration, .uint32 passwordData.gAuthSteps])

def accountExist (store : SecretStore) (sAccountName : String) : Bool := (store.accounts.get sAccountName).isSome

/-- The columns of the SELECT go to the variables in the order of the two lists. -/
def readSecret (row : SecretRow) : Secret :=
  let selected := [.steps, .forcedExpiration, .function, .expiration, .badAttempts, .salt, .hash].map row
  let steps := (selected.getD 0 .null).getUInt32
  let forcedExpiration := (selected.getD 1 .null).getBool
  let function := (selected.getD 2 .null).getUInt32
  let expiration := (selected.getD 3 .null).getDatetime
  let badAttempts := (selected.getD 4 .null).getUInt32
  let salt := (selected.getD 5 .null).getString
  let hash := (selected.getD 6 .null).getString
  { gAuthSteps := steps
    forceExpiration := forcedExpiration
    passwordFunction := .ofCode function
    expiration := expiration
    badAttempts := badAttempts.toNat
    ssalt := Encoders.fromHex salt Secret.none.ssalt 4
    hash := hash }

/-- The secret, whether the account was found and whether the index was. -/
def retrieveSecret (store : SecretStore) (sAccountName : String) (passIndex : PassIndex) : Secret × Bool × Bool :=
  if store.accountExist sAccountName then
    match store.accountsecrets.find? fun row => row.Has sAccountName passIndex with
    | some row => (readSecret row, true, true)
    | none => (.none, true, false)
  else (.none, false, false)

end SecretStore

/-! ## The way back -/

theorem hexPairs_toHex (data : List UInt8) : Encoders.hexPairs (Encoders.toHex data).toList = data := by
  have digits : ∀ byte : UInt8, Encoders.hexToValue (Encoders.hexDigit (byte / 16)) * 16 +
      Encoders.hexToValue (Encoders.hexDigit (byte % 16)) = byte := by
    intro byte
    obtain ⟨n, rfl⟩ : ∃ n : Fin 256, byte = UInt8.ofFin n := ⟨byte.toFin, rfl⟩
    revert n
    decide +kernel
  rw [Encoders.toHex, String.toList_ofList]
  induction data with
  | nil => rfl
  | cons byte rest ih =>
    rw [List.flatMap_cons, List.cons_append, List.cons_append, List.nil_append, Encoders.hexPairs, digits, ih]

/-- A salt comes back whatever was in its place. -/
theorem fromHex_toHex {data into : List UInt8} (same : into.length = data.length) :
    Encoders.fromHex (Encoders.toHex data) into data.length = data := by
  rw [Encoders.fromHex, hexPairs_toHex, List.take_length, ← same, List.drop_length, List.append_nil]

theorem ofCode_code (passFunction : PasswordFunction) : PasswordFunction.ofCode passFunction.code = passFunction := by
  cases passFunction <;> rfl

/-- What a secret must be like to come back from its row. -/
structure Secret.Fresh (secret : Secret) : Prop where
  salted : secret.ssalt.length = 4
  untried : secret.badAttempts = 0

theorem fresh_createNewSecret (crypto : Crypto) (randomSalt : Salt) (passwordInput : String)
    (passFunction : PasswordFunction) (forceExpiration : Bool) (expirationDate : Time) (_2faSteps : UInt32) :
    (createNewSecret crypto randomSalt passwordInput passFunction forceExpiration expirationDate _2faSteps).Fresh := by
  cases passFunction <;> constructor <;> first | rfl | exact randomSalt.property

namespace SecretStore

theorem readSecret_ofInsert {secret : Secret} (fresh : secret.Fresh) (sAccountName : String) (passIndex : PassIndex) :
    readSecret (.ofInsert [.f_secretIndex, .f_userName, .hash, .expiration, .function, .salt, .forcedExpiration, .steps]
      [.uint32 passIndex, .string sAccountName, .string secret.hash, .datetime secret.expiration,
        .uint32 secret.passwordFunction.code, .string (Encoders.toHex secret.ssalt),
        .bool secret.forceExpiration, .uint32 secret.gAuthSteps]) = secret := by
  have salt : Encoders.fromHex (Encoders.toHex secret.ssalt) Secret.none.ssalt 4 = secret.ssalt := by
    rw [← fresh.salted]
    apply fromHex_toHex
    rw [fresh.salted]
    rfl
  obtain ⟨passwordFunction, hash, ssalt, expiration, forceExpiration, badAttempts, gAuthSteps⟩ := secret
  have none : badAttempts = 0 := fresh.untried
  change Secret.mk (.ofCode passwordFunction.code) hash (Encoders.fromHex (Encoders.toHex ssalt) Secret.none.ssalt 4)
    expiration forceExpiration 0 gAuthSteps = _
  rw [ofCode_code, salt, none]

/-- The secret that a row with the key is read as. -/
def secret (store : SecretStore) (sAccountName : String) (passIndex : PassIndex) : Option Secret :=
  (store.accountsecrets.find? fun row => row.Has sAccountName passIndex).map readSecret

/-- The two parts of a key are its own. -/
theorem has_unique {row : SecretRow} {sAccountName other : String} {passIndex index : PassIndex}
    (has : row.Has sAccountName passIndex) (too : row.Has other index) : (other, index) = (sAccountName, passIndex) := by
  obtain ⟨name, number⟩ := has
  obtain ⟨name', number'⟩ := too
  rw [name] at name'
  rw [number] at number'
  rw [Value.string.inj name', Value.uint32.inj number']

theorem secret_deleteSecret (store : SecretStore) (sql : Connector) {sAccountName other : String}
    {passIndex index : PassIndex} (different : (other, index) ≠ (sAccountName, passIndex)) :
    (store.deleteSecret sql sAccountName passIndex).secret other index = store.secret other index := by
  unfold deleteSecret
  split
  · rw [secret, List.find?_filter, secret]
    congr 2
    funext row
    by_cases has : row.Has other index
    · have not : ¬row.Has sAccountName passIndex := fun own => different (has_unique own has)
      simp [has, not]
    · simp [has]
  · rfl

/-- The one secret is replaced. -/
theorem accountChangeSecret_true {store : SecretStore} {deletes inserts : Connector} {sAccountName : String}
    {passwordData : Secret} (fresh : passwordData.Fresh) {passIndex : PassIndex}
    (changed : (store.accountChangeSecret deletes inserts sAccountName passwordData passIndex).1 = true) :
    let changed := (store.accountChangeSecret deletes inserts sAccountName passwordData passIndex).2
    changed.accounts = store.accounts ∧ changed.secretsIndexs = store.secretsIndexs ∧
      store.accountExist sAccountName = true ∧
      ∀ other index, changed.secret other index =
        if (other, index) = (sAccountName, passIndex) then some passwordData else store.secret other index := by
  have kept : (store.deleteSecret deletes sAccountName passIndex).accounts = store.accounts ∧
      (store.deleteSecret deletes sAccountName passIndex).secretsIndexs = store.secretsIndexs := by
    unfold deleteSecret
    split <;> exact ⟨rfl, rfl⟩
  unfold accountChangeSecret insertSecret at changed ⊢
  split at changed
  · rename_i accepted
    rw [if_pos accepted]
    obtain ⟨-, account, -, unused⟩ := accepted
    rw [kept.1] at account
    refine ⟨kept.1, kept.2, account, fun other index => ?_⟩
    rw [secret, List.find?_append, Option.map_or]
    change Option.or ((store.deleteSecret deletes sAccountName passIndex).secret other index) _ = _
    split
    case isTrue own =>
      cases own
      have absent : (store.deleteSecret deletes sAccountName passIndex).secret sAccountName passIndex = none := by
        rw [secret, Option.map_eq_none_iff, List.find?_eq_none]
        intro row member
        simpa using unused row member
      rw [absent, Option.none_or, List.find?_cons_of_pos (by exact decide_eq_true ⟨rfl, rfl⟩), Option.map_some,
        readSecret_ofInsert fresh]
    case isFalse different =>
      have another : ∀ row : SecretRow, row.Has sAccountName passIndex → ¬row.Has other index :=
        fun row own has => different (has_unique own has)
      rw [secret_deleteSecret store deletes different, List.find?_cons_of_neg, List.find?_nil, Option.map_none,
        Option.or_none]
      simpa using another _ ⟨rfl, rfl⟩
  · cases changed

theorem retrieveSecret_eq (store : SecretStore) (sAccountName : String) (passIndex : PassIndex) :
    store.retrieveSecret sAccountName passIndex =
      if store.accountExist sAccountName then
        match store.secret sAccountName passIndex with
        | some secret => (secret, true, true)
        | none => (.none, true, false)
      else (.none, false, false) := by
  rw [retrieveSecret, secret]
  cases store.accountsecrets.find? fun row => row.Has sAccountName passIndex <;> rfl

/-- What is stored is read. -/
theorem retrieveSecret_accountChangeSecret {store : SecretStore} {deletes inserts : Connector} {sAccountName : String}
    {passwordData : Secret} (fresh : passwordData.Fresh) {passIndex : PassIndex}
    (changed : (store.accountChangeSecret deletes inserts sAccountName passwordData passIndex).1 = true) :
    (store.accountChangeSecret deletes inserts sAccountName passwordData passIndex).2.retrieveSecret sAccountName
      passIndex = (passwordData, true, true) := by
  obtain ⟨accounts, -, account, stored⟩ := accountChangeSecret_true fresh changed
  rw [retrieveSecret_eq, accountExist, accounts, stored, if_pos rfl]
  exact if_pos account

/-! ## The database of the manager -/

/-- The manager's database holds what the rows are read as. -/
structure Represents (store : SecretStore) (db : Database) : Prop where
  accounts : db.accounts = store.accounts
  secretsIndexs : db.secretsIndexs = store.secretsIndexs
  secrets : ∀ sAccountName passIndex, db.secrets.get (sAccountName, passIndex) = store.secret sAccountName passIndex

variable {store : SecretStore} {db : Database}

theorem Represents.retrieveSecret (represents : store.Represents db) (sAccountName : String) (passIndex : PassIndex) :
    store.retrieveSecret sAccountName passIndex = db.retrieveSecret sAccountName passIndex := by
  rw [retrieveSecret_eq]
  unfold Database.retrieveSecret accountExist Database.accountExist
  rw [represents.accounts, represents.secrets, secret]
  cases store.accountsecrets.find? fun row => row.Has sAccountName passIndex with
  | none => rfl
  | some row =>
    have small : (readSecret row).badAttempts % 2 ^ 32 = (readSecret row).badAttempts :=
      Nat.mod_eq_of_lt (UInt32.toNat_lt _)
    dsimp only [Option.map_some]
    rw [small]

theorem Represents.accountChangeSecret (represents : store.Represents db) {deletes inserts : Connector}
    {sAccountName : String} {passwordData : Secret} (fresh : passwordData.Fresh) {passIndex : PassIndex}
    (changed : (store.accountChangeSecret deletes inserts sAccountName passwordData passIndex).1 = true) :
    (store.accountChangeSecret deletes inserts sAccountName passwordData passIndex).2.Represents
      { db with secrets := db.secrets.insert (sAccountName, passIndex) passwordData } := by
  obtain ⟨accounts, indexes, -, stored⟩ := accountChangeSecret_true fresh changed
  constructor
  · rw [accounts]
    exact represents.accounts
  · rw [indexes]
    exact represents.secretsIndexs
  · intro other index
    rw [stored, get_insert, represents.secrets]

end SecretStore

/-! ## The validation -/

section
variable (crypto : Crypto) (secret : Secret) (passwordInput challengeSalt : String)

theorem compareSecret_hashing {H : List UInt8 → String → String}
    (hashes : secret.passwordFunction.hashing crypto = some H) :
    compareSecret crypto secret passwordInput challengeSalt .plain =
      if secret.hash = H secret.ssalt passwordInput then .authenticated else .badPassword := by
  unfold compareSecret
  cases function : secret.passwordFunction <;> rw [function] at hashes <;> cases hashes <;> rfl

/-- The functions that hash nothing let nobody in. -/
theorem compareSecret_none (hashes : secret.passwordFunction.hashing crypto = none) :
    isPasswordAuthenticated (compareSecret crypto secret passwordInput challengeSalt .plain) = false := by
  unfold compareSecret
  cases function : secret.passwordFunction <;> rw [function] at hashes <;> cases hashes <;> rfl

theorem validateStoredSecret_eq (now : Time) (authMode : Mode) :
    validateStoredSecret crypto now secret passwordInput challengeSalt authMode =
      if compareSecret crypto secret passwordInput challengeSalt authMode = .authenticated then
        if secret.isExpired now then .expiredPassword else .authenticated
      else compareSecret crypto secret passwordInput challengeSalt authMode := by
  rw [validateStoredSecret]
  by_cases right : compareSecret crypto secret passwordInput challengeSalt authMode = .authenticated
  · simp [right]
  · simp [right]

end

/-- The verdict on a password: right or wrong by the hash that was stored, and late when it has expired. -/
def Validates (crypto : Crypto) (stored : Secret) (password : String) : Prop :=
  (∀ H, stored.passwordFunction.hashing crypto = some H → ∀ now passwordInput challengeSalt,
    validateStoredSecret crypto now stored passwordInput challengeSalt .plain =
      if H stored.ssalt passwordInput = H stored.ssalt password then
        if stored.isExpired now then .expiredPassword else .authenticated
      else .badPassword) ∧
  (stored.passwordFunction.hashing crypto = none → ∀ now passwordInput challengeSalt,
    isPasswordAuthenticated (validateStoredSecret crypto now stored passwordInput challengeSalt .plain) = false)

theorem hash_createNewSecret (crypto : Crypto) (randomSalt : Salt) (passwordInput : String)
    (passFunction : PasswordFunction) (forceExpiration : Bool) (expirationDate : Time) (_2faSteps : UInt32)
    {H : List UInt8 → String → String} :
    let secret := createNewSecret crypto randomSalt passwordInput passFunction forceExpiration expirationDate _2faSteps
    secret.passwordFunction.hashing crypto = some H → secret.hash = H secret.ssalt passwordInput := by
  cases passFunction <;> intro secret hashes <;> cases hashes <;> rfl

theorem validates_createNewSecret (crypto : Crypto) (randomSalt : Salt) (passwordInput : String)
    (passFunction : PasswordFunction) (forceExpiration : Bool) (expirationDate : Time) (_2faSteps : UInt32) :
    Validates crypto
      (createNewSecret crypto randomSalt passwordInput passFunction forceExpiration expirationDate _2faSteps)
      passwordInput := by
  constructor
  · intro H hashes now other challengeSalt
    have hash := hash_createNewSecret crypto randomSalt passwordInput passFunction forceExpiration expirationDate
      _2faSteps hashes
    rw [validateStoredSecret_eq, compareSecret_hashing _ _ _ _ hashes, hash]
    by_cases right : H (createNewSecret crypto randomSalt passwordInput passFunction forceExpiration expirationDate
        _2faSteps).ssalt other = H (createNewSecret crypto randomSalt passwordInput passFunction forceExpiration
        expirationDate _2faSteps).ssalt passwordInput
    · simp [right]
    · simp [right, Ne.symm right]
  · intro hashes now other challengeSalt
    have refused := compareSecret_none crypto _ other challengeSalt hashes
    rw [validateStoredSecret_eq, if_neg]
    · exact refused
    · intro authenticated
      rw [authenticated] at refused
      cases refused

/-- A secret that is made of a password and stored comes back as it was, untried, and judges a password by its
hash and its expiry. -/
theorem secret_comesBack (crypto : Crypto) (store : SecretStore) (deletes inserts : Connector) (sAccountName : String)
    (passIndex : PassIndex) (randomSalt : Salt) (passwordInput : String) (passFunction : PasswordFunction)
    (forceExpiration : Bool) (expirationDate : Time) (_2faSteps : UInt32) :
    let secret := createNewSecret crypto randomSalt passwordInput passFunction forceExpiration expirationDate _2faSteps
    let (changed, store) := store.accountChangeSecret deletes inserts sAccountName secret passIndex
    changed = true →
      store.retrieveSecret sAccountName passIndex = (secret, true, true) ∧ secret.badAttempts = 0 ∧
        Validates crypto secret passwordInput := by
  intro secret
  have fresh := fresh_createNewSecret crypto randomSalt passwordInput passFunction forceExpiration expirationDate _2faSteps
  intro changed
  refine ⟨SecretStore.retrieveSecret_accountChangeSecret fresh changed, fresh.untried, ?_⟩
  apply validates_createNewSecret

theorem secret_comesBack_admin :
    let store : SecretStore :=
      ⟨(∅ : Table String Account).insert "admin" ⟨⟨true, true, true⟩, 0, 0⟩,
        (∅ : Table PassIndex SecretIndex).insert 0 ⟨"Master Login Password", true⟩, []⟩
    let crypto : Crypto := ⟨id, id, fun password _ => password, fun password _ => password⟩
    let secret := createNewSecret crypto ⟨[1, 2, 3, 255], rfl⟩ "secret" .plain false 0 0
    (store.accountChangeSecret .working .working "admin" secret 0).1 = true ∧
      (store.accountChangeSecret .working .working "admin" secret 0).2.retrieveSecret "admin" 0 = (secret, true, true) ∧
      Validates crypto secret "secret" := by
  intro store crypto secret
  have changed : (store.accountChangeSecret .working .working "admin" secret 0).1 = true := by decide
  have back := secret_comesBack crypto store .working .working "admin" 0 ⟨[1, 2, 3, 255], rfl⟩ "secret" .plain false 0 0
    changed
  exact ⟨changed, back.1, back.2.2⟩

end Mantids.Auth
