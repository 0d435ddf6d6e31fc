import Mantids.Auth.DirectoryObjects

/-! The attributes that an account may use: what a single one is validated against, and the list that is shown. -/

set_option autoImplicit false

namespace Mantids.Auth

open Library

namespace Directory

/-- The attribute is assigned to the account, or to a group that it belongs to. -/
def HasRight (db : Directory) (sAccountName : String) (attrib : ApplicationAttrib) : Prop :=
  db.attribsAccounts.linked (attrib, sAccountName) = true ∨
    ∃ groupName, db.groupsAccounts.linked (groupName, sAccountName) = true ∧
      db.attribsGroups.linked (attrib, groupName) = true

section
variable {db : Directory} {sAccountName groupName appName : String} {attrib : ApplicationAttrib}

/-! ## The sets that are read -/

@[simp] theorem mem_accountGroups :
    groupName ∈ db.accountGroups sAccountName ↔ db.groupsAccounts.linked (groupName, sAccountName) = true := by
  simp [accountGroups, mem_links]

@[simp] theorem mem_accountDirectAttribs :
    attrib ∈ db.accountDirectAttribs sAccountName ↔ db.attribsAccounts.linked (attrib, sAccountName) = true := by
  simp [accountDirectAttribs, mem_links]

@[simp] theorem mem_groupAttribs :
    attrib ∈ db.groupAttribs groupName ↔ db.attribsGroups.linked (attrib, groupName) = true := by
  simp [groupAttribs, mem_links]

@[simp] theorem mem_accountApplications :
    appName ∈ db.accountApplications sAccountName ↔ db.applicationUsers.linked (sAccountName, appName) = true := by
  simp [accountApplications, mem_links]

@[simp] theorem mem_groupsList : groupName ∈ db.groupsList ↔ db.groupExist groupName = true := by
  simp [groupsList, groupExist, mem_select, Option.isSome_iff_exists]

@[simp] theorem mem_applicationList : appName ∈ db.applicationList ↔ db.applicationExist appName = true := by
  simp [applicationList, applicationExist, mem_select, Option.isSome_iff_exists]

theorem mem_attribsList :
    attrib ∈ db.attribsList appName ↔ db.attribExist attrib = true ∧ (appName = "" ∨ attrib.appName = appName) := by
  simp [attribsList, attribExist, mem_select, Option.isSome_iff_exists]

/-! ## Single attributes -/

/-- A query for one key finds a row just when the key is there. -/
theorem links_single {K : Type} [DecidableEq K] {table : Links K} {wanted : K → Bool} {key : K}
    (only : ∀ other, wanted other = true ↔ other = key) : (!(table.links wanted).isEmpty) = table.linked key := by
  rw [Bool.eq_iff_iff, Bool.not_eq_true', List.isEmpty_eq_false_iff_exists_mem]
  constructor
  · rintro ⟨other, member⟩
    obtain ⟨found, chosen⟩ := mem_links.mp member
    rw [← (only other).mp chosen]
    exact found
  · intro found
    exact ⟨key, mem_links.mpr ⟨found, (only key).mpr rfl⟩⟩

@[simp] theorem groupValidateAttribute_eq :
    db.groupValidateAttribute groupName attrib = db.attribsGroups.linked (attrib, groupName) := by
  apply links_single
  rintro ⟨⟨application, name⟩, group⟩
  cases attrib
  simp only [decide_eq_true_eq, Prod.mk.injEq, ApplicationAttrib.mk.injEq]
  tauto

/-! ## The two views -/

theorem mem_foldl_insertAll {β : Type} {read : β → OrderedSet ApplicationAttrib} {xs : List β}
    {into : OrderedSet ApplicationAttrib} :
    attrib ∈ xs.foldl (fun x y => x.insertAll (read y).elements) into ↔ attrib ∈ into ∨ ∃ y ∈ xs, attrib ∈ read y := by
  induction xs generalizing into with
  | nil => simp
  | cons y ys ih =>
    rw [List.foldl_cons, ih, OrderedSet.mem_insertAll, OrderedSet.mem_elements, List.exists_mem_cons_iff]
    tauto

@[simp] theorem mem_accountUsableAttribs : attrib ∈ db.accountUsableAttribs sAccountName ↔ db.HasRight sAccountName attrib := by
  simp [accountUsableAttribs, mem_foldl_insertAll, HasRight, OrderedSet.mem_elements]

end

end Directory

end Mantids.Auth
