import Mantids.RPC.MethodsManager
import Mathlib

/-! The verdict on an RPC call against what its authorisation means. -/

set_option autoImplicit false

namespace Mantids.RPC

open Auth

/-! ## Sets built and emptied by loops -/

section
variable {α β : Type} [DecidableEq α]

theorem mem_foldl_insert (f : β → α) (entries : List β) (start : List α) (x : α) :
    x ∈ entries.foldl (fun r entry => r.insert (f entry)) start ↔
      x ∈ start ∨ ∃ entry ∈ entries, f entry = x := by
  induction entries generalizing start with
  | nil => simp
  | cons entry rest ih =>
    rw [List.foldl_cons, ih, List.mem_insert_iff, List.exists_mem_cons_iff, eq_comm]
    tauto

theorem nodup_foldl_insert (f : β → α) (entries : List β) {start : List α} (nodup : start.Nodup) :
    (entries.foldl (fun r entry => r.insert (f entry)) start).Nodup := by
  induction entries generalizing start with
  | nil => exact nodup
  | cons entry rest ih => exact ih nodup.insert

omit [DecidableEq α] in
/-- A loop whose body erases its element under a condition leaves the others. -/
theorem mem_foldl_erase {body : List α → α → List α} {p : α → Prop}
    (one : ∀ left x, left.Nodup → (body left x).Nodup ∧ ∀ y, y ∈ body left x ↔ y ∈ left ∧ (y = x → ¬p x))
    (xs : List α) {left : List α} (nodup : left.Nodup) (y : α) :
    y ∈ xs.foldl body left ↔ y ∈ left ∧ (y ∈ xs → ¬p y) := by
  induction xs generalizing left with
  | nil => simp
  | cons x xs ih =>
    obtain ⟨next, members⟩ := one left x nodup
    rw [List.foldl_cons, ih next, members, List.mem_cons]
    constructor
    · rintro ⟨⟨inside, here⟩, later⟩
      refine ⟨inside, fun member => ?_⟩
      rcases member with same | member
      · exact same ▸ here same
      · exact later member
    · rintro ⟨inside, all⟩
      exact ⟨⟨inside, fun same => same ▸ all (.inl same)⟩, fun member => all (.inr member)⟩

omit [DecidableEq α] in
theorem foldl_erase_eq_nil_iff {body : List α → α → List α} {p : α → Prop}
    (one : ∀ left x, left.Nodup → (body left x).Nodup ∧ ∀ y, y ∈ body left x ↔ y ∈ left ∧ (y = x → ¬p x))
    {xs : List α} (nodup : xs.Nodup) : xs.foldl body xs = [] ↔ ∀ x ∈ xs, p x := by
  rw [List.eq_nil_iff_forall_not_mem]
  constructor
  · intro none x member
    by_contra fails
    exact none x ((mem_foldl_erase one xs nodup x).mpr ⟨member, fun _ => fails⟩)
  · intro all x member
    obtain ⟨inside, fails⟩ := (mem_foldl_erase one xs nodup x).mp member
    exact fails inside (all x inside)

theorem erase_if (p : α → Prop) [DecidablePred p] (left : List α) (x : α) (nodup : left.Nodup) :
    (if p x then left.erase x else left).Nodup ∧
      ∀ y, y ∈ (if p x then left.erase x else left) ↔ y ∈ left ∧ (y = x → ¬p x) := by
  split
  · rename_i holds
    refine ⟨nodup.erase x, fun y => ?_⟩
    rw [nodup.mem_erase_iff]
    constructor
    · rintro ⟨different, member⟩
      exact ⟨member, fun same => absurd same different⟩
    · rintro ⟨member, apart⟩
      exact ⟨fun same => apart same holds, member⟩
  · rename_i fails
    exact ⟨nodup, fun y => by simp [fails]⟩

end

/-! ## What a call requires -/

/-- The password indexes a method requires: the main one for every attribute and,
where all methods are to be authenticated, for every method. -/
def RequiresIndex (map : MethodsAttributesMap) (methodName : String) (passIndex : PassIndex) : Prop :=
  map.requireAllMethodsToBeAuthenticated = true ∧ passIndex = 0 ∨
    ∃ attrib, (methodName, attrib) ∈ map.methodAttribs ∧
      (passIndex = 0 ∨ (attrib, passIndex) ∈ map.attribPassIndexes)

/-- A persistent session, fully logged in with no expired password. -/
def FullSession (session : Option Session) (now : Time) : Prop :=
  ∃ account ∈ session, account.isPersistentSession = true ∧ account.requiredLoginIdxs ≠ [] ∧
    ∀ required ∈ account.requiredLoginIdxs,
      account.getIdxAuthenticationStatus now required.1 = .authenticated

def SuperUser (auth : Authorizer) (session : Option Session) : Prop :=
  ∃ account ∈ session, auth.isAccountSuperUser account.authUser = true

def IndexAuthenticated (session : Option Session) (now : Time) (extraTmpIndexes : List PassIndex)
    (passIndex : PassIndex) : Prop :=
  (∃ account ∈ session, isPasswordAuthenticated (account.getIdxAuthenticationStatus now passIndex) = true) ∨
    passIndex ∈ extraTmpIndexes

def AttribValidated (auth : Authorizer) (session : Option Session) (attrib : ApplicationAttrib) : Prop :=
  ∃ account ∈ session, auth.accountValidateAttribute account.authUser attrib = true

section
variable {RPCMethod : Type} (manager : MethodsManager RPCMethod) (auth : Authorizer)
  (session : Option Session) (now : Time) (methodName : String) (extraTmpIndexes : List PassIndex)

def Authorised : Prop :=
  manager.methods.get methodName ≠ none ∧
    (manager.getMethodRequireFullAuth methodName = true → FullSession session now) ∧
    (SuperUser auth session ∨
      (∀ passIndex, RequiresIndex manager.methodsAttribs methodName passIndex →
        IndexAuthenticated session now extraTmpIndexes passIndex) ∧
      ∀ attrib, (methodName, attrib) ∈ manager.methodsAttribs.methodAttribs →
        AttribValidated auth session attrib)

/-- The check returns, and returns the verdict that the call deserves. -/
def ExactVerdict : Prop :=
  ∃ verdict, manager.validateRPCMethodPerms auth session now methodName extraTmpIndexes = some verdict ∧
    (verdict.code = .ok ↔ Authorised manager auth session now methodName extraTmpIndexes)

end

/-! ## The sets that `validateMethod` works with -/

section
variable (map : MethodsAttributesMap) (methodName : String)

theorem mem_getMethodAttribs (attrib : ApplicationAttrib) :
    attrib ∈ map.getMethodAttribs methodName ↔ (methodName, attrib) ∈ map.methodAttribs := by
  rw [MethodsAttributesMap.getMethodAttribs, mem_foldl_insert]
  simp

theorem mem_getAttribPassIndexes (attrib : ApplicationAttrib) (passIndex : PassIndex) :
    passIndex ∈ map.getAttribPassIndexes attrib ↔
      passIndex = 0 ∨ (attrib, passIndex) ∈ map.attribPassIndexes := by
  rw [MethodsAttributesMap.getAttribPassIndexes, mem_foldl_insert]
  simp

theorem getMethodPassIndexes_inner (attribs : List ApplicationAttrib) (start : List PassIndex)
    (passIndex : PassIndex) :
    passIndex ∈ attribs.foldl (fun r attrib =>
        (map.getAttribPassIndexes attrib).foldl (fun r passIndex => r.insert passIndex) r) start ↔
      passIndex ∈ start ∨ ∃ attrib ∈ attribs, passIndex ∈ map.getAttribPassIndexes attrib := by
  induction attribs generalizing start with
  | nil => simp
  | cons attrib rest ih =>
    have inner := mem_foldl_insert id (map.getAttribPassIndexes attrib) start passIndex
    simp only [id, exists_eq_right] at inner
    rw [List.foldl_cons, ih, inner, List.exists_mem_cons_iff, or_assoc]

theorem mem_getMethodPassIndexes (passIndex : PassIndex) :
    passIndex ∈ map.getMethodPassIndexes methodName ↔ RequiresIndex map methodName passIndex := by
  have inner := getMethodPassIndexes_inner map (map.getMethodAttribs methodName) [] passIndex
  simp only [List.not_mem_nil, false_or, mem_getMethodAttribs, mem_getAttribPassIndexes] at inner
  unfold MethodsAttributesMap.getMethodPassIndexes RequiresIndex
  split
  · rename_i all
    rw [List.mem_insert_iff, inner]
    simp [all]
  · rename_i some
    rw [inner]
    simp [some]

theorem nodup_getMethodAttribs : (map.getMethodAttribs methodName).Nodup :=
  nodup_foldl_insert _ _ List.nodup_nil

theorem nodup_getMethodPassIndexes : (map.getMethodPassIndexes methodName).Nodup := by
  have inner : ∀ (attribs : List ApplicationAttrib) (start : List PassIndex), start.Nodup →
      (attribs.foldl (fun r attrib =>
        (map.getAttribPassIndexes attrib).foldl (fun r passIndex => r.insert passIndex) r) start).Nodup := by
    intro attribs
    induction attribs with
    | nil => exact fun _ nodup => nodup
    | cons attrib rest ih => exact fun start nodup => ih _ (nodup_foldl_insert id _ nodup)
  unfold MethodsAttributesMap.getMethodPassIndexes
  split
  · exact (inner _ _ List.nodup_nil).insert
  · exact inner _ _ List.nodup_nil

end

/-! ## The verdict -/

/-- With an account behind the session, the two loops leave nothing exactly when every
required index is authenticated and every required attribute validated. -/
theorem validateMethod_valid_iff (map : MethodsAttributesMap) (auth : Authorizer) (account : Session)
    (now : Time) (methodName : String) (extraTmpIndexes : List PassIndex) :
    ∃ validation, map.validateMethod auth (some account) now methodName extraTmpIndexes = some validation ∧
      (validation.valid = true ↔ SuperUser auth (some account) ∨
        (∀ passIndex, RequiresIndex map methodName passIndex →
          IndexAuthenticated (some account) now extraTmpIndexes passIndex) ∧
        ∀ attrib, (methodName, attrib) ∈ map.methodAttribs → AttribValidated auth (some account) attrib) := by
  have superUser : SuperUser auth (some account) ↔ auth.isAccountSuperUser account.authUser = true := by
    simp [SuperUser]
  by_cases shortcut : auth.isAccountSuperUser account.authUser = true
  · refine ⟨⟨[], [], true⟩, ?_, iff_of_true rfl (.inl (superUser.mpr shortcut))⟩
    simp only [MethodsAttributesMap.validateMethod, shortcut, if_true]
  · refine ⟨_, by simp only [MethodsAttributesMap.validateMethod, shortcut]; rfl, ?_⟩
    simp only [superUser, shortcut, Bool.false_eq_true, false_or]
    rw [Bool.and_eq_true, List.isEmpty_iff, List.isEmpty_iff]
    refine and_congr ?_ ?_
    · -- erasing twice is erasing once, so the body erases under either condition
      rw [foldl_erase_eq_nil_iff (p := IndexAuthenticated (some account) now extraTmpIndexes) ?_
        (nodup_getMethodPassIndexes map methodName)]
      · simp only [mem_getMethodPassIndexes]
      · intro left passIndex nodup
        have first := erase_if (fun passIndex => (some account).isSome ∧
          isPasswordAuthenticated (account.getIdxAuthenticationStatus now passIndex)) left passIndex nodup
        have second := erase_if (fun passIndex => passIndex ∈ extraTmpIndexes) _ passIndex first.1
        refine ⟨second.1, fun y => ?_⟩
        rw [second.2, first.2]
        simp only [IndexAuthenticated, Option.mem_def, Option.some.injEq, exists_eq_left', Option.isSome_some,
          true_and, not_or, and_assoc]
        tauto
    · rw [foldl_erase_eq_nil_iff (p := AttribValidated auth (some account)) ?_
        (nodup_getMethodAttribs map methodName)]
      · simp only [mem_getMethodAttribs]
      · intro left attrib nodup
        have one := erase_if (fun attrib => (some account).isSome ∧
          auth.accountValidateAttribute account.authUser attrib) left attrib nodup
        simpa [AttribValidated] using one

theorem fullSession_iff (session : Option Session) (now : Time) :
    FullSession session now ↔ (session.any fun account =>
      account.getIsFullyLoggedIn now .disallowExpiredPasswords && account.isPersistentSession) = true := by
  cases session with
  | none => simp [FullSession]
  | some account =>
    simp [FullSession, Session.getIsFullyLoggedIn]
    tauto

section
variable {RPCMethod : Type} (manager : MethodsManager RPCMethod) (auth : Authorizer)
  (now : Time) (methodName : String) (extraTmpIndexes : List PassIndex)

theorem exactVerdict_of_session (account : Session) :
    ExactVerdict manager auth (some account) now methodName extraTmpIndexes := by
  unfold ExactVerdict Authorised MethodsManager.validateRPCMethodPerms
  cases found : manager.methods.get methodName with
  | none => exact ⟨_, rfl, by simp⟩
  | some rpcMethod =>
    rw [fullSession_iff]
    simp only [ne_eq, reduceCtorEq, not_false_eq_true, true_and]
    by_cases refused : manager.getMethodRequireFullAuth methodName ∧
        !((some account).any fun account =>
          account.getIsFullyLoggedIn now .disallowExpiredPasswords && account.isPersistentSession)
    · rw [if_pos refused]
      refine ⟨_, rfl, iff_of_false (by decide) ?_⟩
      rintro ⟨full, -⟩
      simp [full refused.1] at refused
    · obtain ⟨validation, result, valid⟩ :=
        validateMethod_valid_iff manager.methodsAttribs auth account now methodName extraTmpIndexes
      rw [if_neg refused, result]
      have full : manager.getMethodRequireFullAuth methodName = true → ((some account).any fun account =>
          account.getIsFullyLoggedIn now .disallowExpiredPasswords && account.isPersistentSession) = true := by
        intro required
        by_contra missing
        rw [Bool.not_eq_true] at missing
        exact refused ⟨required, by rw [missing]; rfl⟩
      rw [← valid]
      by_cases passed : validation.valid = true
      · exact ⟨_, if_pos passed, iff_of_true rfl ⟨full, passed⟩⟩
      · exact ⟨_, if_neg passed, iff_of_false (by simp) fun both => passed both.2⟩

theorem exactVerdict_of_none :
    ExactVerdict manager auth none now methodName extraTmpIndexes ↔
      manager.methods.get methodName = none ∨ manager.getMethodRequireFullAuth methodName = true := by
  unfold ExactVerdict Authorised MethodsManager.validateRPCMethodPerms
  cases found : manager.methods.get methodName with
  | none => simp
  | some rpcMethod =>
    by_cases required : manager.getMethodRequireFullAuth methodName = true
    · simp [required, FullSession]
    · simp [required, MethodsAttributesMap.validateMethod]

/-- The verdict is exact unless the call gets to `validateMethod` without a session:
for a registered method that does not require full authentication. -/
theorem exactVerdict_iff (session : Option Session) :
    ExactVerdict manager auth session now methodName extraTmpIndexes ↔
      session ≠ none ∨ manager.methods.get methodName = none ∨
        manager.getMethodRequireFullAuth methodName = true := by
  cases session with
  | none => simpa using exactVerdict_of_none manager auth now methodName extraTmpIndexes
  | some account =>
    exact iff_of_true (exactVerdict_of_session manager auth now methodName extraTmpIndexes account)
      (.inl (Option.some_ne_none account))

end

/-- A public method called without a login reaches a null session. -/
theorem exactVerdict_fails :
    ¬∀ (manager : MethodsManager Unit) (auth : Authorizer) (session : Option Session) (now : Time)
      (methodName : String) (extraTmpIndexes : List PassIndex),
      ExactVerdict manager auth session now methodName extraTmpIndexes := by
  intro all
  obtain ⟨verdict, returned, -⟩ := all ((MethodsManager.new "app").addRPCMethod "ping" [] () false).2
    ⟨fun _ => false, fun _ _ => false⟩ none 0 "ping" []
  have fault : MethodsManager.validateRPCMethodPerms ((MethodsManager.new "app").addRPCMethod "ping" [] () false).2
      ⟨fun _ => false, fun _ _ => false⟩ none 0 "ping" [] = none := by rfl
  rw [fault] at returned
  contradiction

end Mantids.RPC
