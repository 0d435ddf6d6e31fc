import Mantids.Auth.ManagerDB
import Mantids.Library.Runs

/-! Whether somebody can always administer: a superuser that is enabled and
confirmed, along every run of the operations that take an account or its flags. -/

set_option autoImplicit false

namespace Mantids.Auth

open Library

namespace AccountAttribs

def usable (attribs : AccountAttribs) : Bool := attribs.superuser && attribs.enabled && attribs.confirmed

end AccountAttribs

namespace Database

inductive AccountOp where
  | accountRemove (sAccountName : String)
  | accountDisable (sAccountName : String) (disabled : Bool)
  | accountChangeAttribs (sAccountName : String) (accountAttribs : AccountAttribs)

/-- An operation, and how the connector behaves meanwhile. -/
def accountStep (db : Database) : AccountOp × Connector → Database
  | (.accountRemove sAccountName, sql) => (db.accountRemove sql sAccountName).2
  | (.accountDisable sAccountName disabled, sql) => (db.accountDisable sql sAccountName disabled).2
  | (.accountChangeAttribs sAccountName attribs, sql) => (db.accountChangeAttribs sql sAccountName attribs).2

def UsableSuperUser (db : Database) : Prop :=
  ∃ name account, db.accounts.get name = some account ∧ account.attribs.usable = true

/-- An account of another name has the property. -/
def Another (db : Database) (sAccountName : String) (p : AccountAttribs → Bool) : Prop :=
  ∃ name account, name ≠ sAccountName ∧ db.accounts.get name = some account ∧ p account.attribs = true

/-- The account whose use for administration the operation ends. -/
def AccountOp.taken : AccountOp → Option String
  | accountRemove sAccountName => some sAccountName
  | accountDisable sAccountName disabled => if disabled then some sAccountName else none
  | accountChangeAttribs sAccountName attribs => if attribs.usable then none else some sAccountName

/-- Whoever is not the only enabled superuser is not the only confirmed one either. -/
def Spares (db : Database) (op : AccountOp × Connector) : Prop :=
  ∀ name ∈ op.1.taken, op.2.answers = true → op.2.executes = true →
    db.Another name (fun attribs => attribs.superuser && attribs.enabled) → db.Another name AccountAttribs.usable

/-! ## One operation -/

section
variable {db : Database}

theorem isThereAnotherSuperUser_iff (sql : Connector) (sAccountName : String) :
    db.isThereAnotherSuperUser sql sAccountName = true ↔
      sql.answers = true ∧ db.Another sAccountName fun attribs => attribs.superuser && attribs.enabled := by
  simp only [isThereAnotherSuperUser, Bool.and_eq_true, List.any_eq_true, Another, bne_iff_ne]
  constructor
  · rintro ⟨answered, ⟨name, account⟩, member, ⟨other, superuser⟩, enabled⟩
    exact ⟨answered, name, account, other, mem_entries_iff.mp member, superuser, enabled⟩
  · rintro ⟨answered, name, account, other, found, superuser, enabled⟩
    exact ⟨answered, ⟨name, account⟩, mem_entries_iff.mpr found, ⟨other, superuser⟩, enabled⟩

theorem get_setAttribs (sAccountName name : String) (change : AccountAttribs → AccountAttribs) :
    (db.setAttribs sAccountName change).accounts.get name =
      if name = sAccountName then
        (db.accounts.get name).map fun account => { account with attribs := change account.attribs }
      else db.accounts.get name := by
  unfold setAttribs
  cases found : db.accounts.get sAccountName with
  | none =>
    by_cases same : name = sAccountName
    · simp [same, found]
    · simp [same]
  | some account =>
    rw [get_insert]
    by_cases same : name = sAccountName
    · simp [same, found]
    · simp [same]

/-- An executed operation leaves the other accounts as they are. -/
theorem UsableSuperUser.of_another {next : Database} {sAccountName : String}
    (kept : ∀ name, name ≠ sAccountName → next.accounts.get name = db.accounts.get name)
    (another : db.Another sAccountName AccountAttribs.usable) : next.UsableSuperUser := by
  obtain ⟨name, account, other, found, usable⟩ := another
  exact ⟨name, account, (kept name other).trans found, usable⟩

/-- What is usable after one account was made unusable is another account. -/
theorem usableSuperUser_iff_another {next : Database} {sAccountName : String}
    (kept : ∀ name, name ≠ sAccountName → next.accounts.get name = db.accounts.get name)
    (ended : ∀ account, next.accounts.get sAccountName = some account → account.attribs.usable = false) :
    next.UsableSuperUser ↔ db.Another sAccountName AccountAttribs.usable := by
  constructor
  · rintro ⟨name, account, found, usable⟩
    have other : name ≠ sAccountName := by
      intro same
      subst same
      simp [ended account found] at usable
    exact ⟨name, account, other, (kept name other).symm.trans found, usable⟩
  · exact UsableSuperUser.of_another kept

theorem kept_setAttribs {sAccountName : String} {change : AccountAttribs → AccountAttribs} (name : String)
    (other : name ≠ sAccountName) : (db.setAttribs sAccountName change).accounts.get name = db.accounts.get name := by
  rw [get_setAttribs, if_neg other]

theorem kept_erase {sAccountName : String} (name : String) (other : name ≠ sAccountName) :
    Table.get (db.accounts.erase sAccountName) name = db.accounts.get name := by
  rw [get_erase, if_neg other]

theorem ended_setAttribs {sAccountName : String} {change : AccountAttribs → AccountAttribs}
    (ends : ∀ attribs, (change attribs).usable = false) (account : Account)
    (found : (db.setAttribs sAccountName change).accounts.get sAccountName = some account) :
    account.attribs.usable = false := by
  rw [get_setAttribs, if_pos rfl] at found
  obtain ⟨before, _, rfl⟩ := Option.map_eq_some_iff.mp found
  exact ends before.attribs

/-- A change that keeps usable accounts usable keeps one. -/
theorem UsableSuperUser.setAttribs {sAccountName : String} {change : AccountAttribs → AccountAttribs}
    (usable : db.UsableSuperUser) (keeps : ∀ attribs, attribs.usable = true → (change attribs).usable = true) :
    (db.setAttribs sAccountName change).UsableSuperUser := by
  obtain ⟨name, account, found, held⟩ := usable
  by_cases same : name = sAccountName
  · refine ⟨name, { account with attribs := change account.attribs }, ?_, keeps _ held⟩
    rw [get_setAttribs, if_pos same, found, Option.map_some]
  · refine ⟨name, account, ?_, held⟩
    rw [get_setAttribs, if_neg same, found]

/-- An operation that ends the use of an account when the guard and the connector let it. -/
theorem spared_iff (next : Database) {op : AccountOp × Connector} {sAccountName : String} (usable : db.UsableSuperUser)
    (taken : op.1.taken = some sAccountName)
    (written : (db.accountStep op) = if db.isThereAnotherSuperUser op.2 sAccountName = true ∧ op.2.executes = true
      then next else db)
    (kept : ∀ name, name ≠ sAccountName → next.accounts.get name = db.accounts.get name)
    (ended : ∀ account, next.accounts.get sAccountName = some account → account.attribs.usable = false) :
    (db.accountStep op).UsableSuperUser ↔ db.Spares op := by
  rw [written]
  by_cases executed : db.isThereAnotherSuperUser op.2 sAccountName = true ∧ op.2.executes = true
  · obtain ⟨answered, guarded⟩ := (isThereAnotherSuperUser_iff op.2 sAccountName).mp executed.1
    rw [if_pos executed, usableSuperUser_iff_another kept ended]
    constructor
    · intro another name same _ _ _
      rw [taken] at same
      cases same
      exact another
    · intro spares
      exact spares sAccountName taken answered executed.2 guarded
  · rw [if_neg executed]
    refine iff_of_true usable fun name same answered done guarded => ?_
    rw [taken] at same
    cases same
    exact absurd ⟨(isThereAnotherSuperUser_iff op.2 sAccountName).mpr ⟨answered, guarded⟩, done⟩ executed

theorem spares_of_untaken {op : AccountOp × Connector} (untaken : op.1.taken = none) : db.Spares op := by
  intro name taken
  simp [untaken] at taken

theorem accountStep_iff (op : AccountOp × Connector) (usable : db.UsableSuperUser) :
    (db.accountStep op).UsableSuperUser ↔ db.Spares op := by
  obtain ⟨op, sql⟩ := op
  cases op with
  | accountRemove sAccountName =>
    refine spared_iff { db with accounts := db.accounts.erase sAccountName } usable rfl ?_ kept_erase ?_
    · simp only [accountStep, Database.accountRemove]
      cases db.isThereAnotherSuperUser sql sAccountName <;> cases sql.executes <;> simp
    · simp
  | accountDisable sAccountName disabled =>
    cases disabled with
    | true =>
      refine spared_iff (db.setAttribs sAccountName fun attribs => { attribs with enabled := !true }) usable rfl ?_
        kept_setAttribs (ended_setAttribs fun attribs => by simp [AccountAttribs.usable])
      simp only [accountStep, Database.accountDisable]
      cases db.isThereAnotherSuperUser sql sAccountName <;> cases sql.executes <;> simp
    | false =>
      refine iff_of_true ?_ (spares_of_untaken rfl)
      simp only [accountStep, Database.accountDisable]
      cases sql.executes with
      | true =>
        apply usable.setAttribs
        intro attribs held
        simp only [AccountAttribs.usable, Bool.and_eq_true] at held ⊢
        exact ⟨⟨held.1.1, rfl⟩, held.2⟩
      | false => exact usable
  | accountChangeAttribs sAccountName attribs =>
    by_cases whole : attribs.usable = true
    · refine iff_of_true ?_ (spares_of_untaken (if_pos whole))
      have full := whole
      simp only [AccountAttribs.usable, Bool.and_eq_true] at full
      simp only [accountStep, Database.accountChangeAttribs, full]
      cases sql.executes with
      | true => exact usable.setAttribs fun _ _ => whole
      | false => exact usable
    · refine spared_iff (db.setAttribs sAccountName fun _ => attribs) usable (if_neg whole) ?_ kept_setAttribs
        (ended_setAttribs fun _ => by simpa using whole)
      have lacking : attribs.confirmed = false ∨ attribs.enabled = false ∨ attribs.superuser = false := by
        by_contra full
        simp only [not_or, Bool.not_eq_false] at full
        exact whole (by simp [AccountAttribs.usable, full])
      simp only [accountStep, Database.accountChangeAttribs, lacking]
      cases db.isThereAnotherSuperUser sql sAccountName <;> cases sql.executes <;> simp

end

/-! ## Every run -/

theorem usableSuperUser_run_iff (db : Database) (run : List (AccountOp × Connector)) (usable : db.UsableSuperUser) :
    (∀ reached ∈ visited accountStep db run, reached.UsableSuperUser) ↔ Along accountStep Spares db run := by
  rw [visited_iff_along]
  constructor
  · rintro ⟨_, good⟩
    exact (along_iff UsableSuperUser (fun _ op held => accountStep_iff op held) (fun _ _ _ next => next) db run
      usable).mp good
  · intro spares
    exact ⟨usable, (along_iff UsableSuperUser (fun _ op held => accountStep_iff op held) (fun _ _ _ next => next) db run
      usable).mpr spares⟩

/-- The administrator, and a second superuser whose account waits for its confirmation. -/
def administrators : Database where
  accounts := ((∅ : Table String Account).insert "admin" ⟨⟨true, true, true⟩, 0, 0⟩).insert "bob"
    ⟨⟨true, false, true⟩, 0, 0⟩
  secrets := ∅
  secretsIndexs := ∅
  applicationUsers := []

theorem administrators_usable : administrators.UsableSuperUser :=
  ⟨"admin", ⟨⟨true, true, true⟩, 0, 0⟩, by simp [administrators, get_insert], rfl⟩

/-- Removing the unconfirmed one is harmless. -/
theorem usableSuperUser_run_bob :
    (visited accountStep administrators [(.accountRemove "bob", .working)]).Forall UsableSuperUser := by
  rw [List.forall_iff_forall_mem]
  apply (usableSuperUser_run_iff administrators [(.accountRemove "bob", .working)] administrators_usable).mpr
  refine ⟨fun name taken _ _ _ => ?_, trivial⟩
  cases taken
  exact ⟨"admin", ⟨⟨true, true, true⟩, 0, 0⟩, by decide, by simp [administrators, get_insert], rfl⟩

/-- The administrator may be removed for the sake of one who cannot log in. -/
theorem usableSuperUser_run_fails :
    ¬ ∀ (db : Database) (run : List (AccountOp × Connector)), db.UsableSuperUser →
      ∀ reached ∈ visited accountStep db run, reached.UsableSuperUser := by
  intro claim
  have left := claim administrators [(.accountRemove "admin", .working)] administrators_usable _
    (List.mem_cons_of_mem _ (List.mem_singleton.mpr rfl))
  have removed : administrators.accountStep (.accountRemove "admin", .working) =
      { administrators with accounts := administrators.accounts.erase "admin" } := by
    have guard : administrators.isThereAnotherSuperUser .working "admin" = true :=
      (isThereAnotherSuperUser_iff .working "admin").mpr
        ⟨rfl, "bob", ⟨⟨true, false, true⟩, 0, 0⟩, by decide, by simp [administrators], rfl⟩
    simp only [accountStep, accountRemove, guard]
    rfl
  rw [removed] at left
  obtain ⟨name, account, found, usable⟩ := left
  simp only [administrators, get_erase, get_insert] at found
  by_cases admin : name = "admin"
  · simp [admin] at found
  · by_cases bob : name = "bob"
    · simp only [bob, if_neg (show "bob" ≠ "admin" by decide)] at found
      cases found
      cases usable
    · simp [admin, bob] at found

end Database

end Mantids.Auth
