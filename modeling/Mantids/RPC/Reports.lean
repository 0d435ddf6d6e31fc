import Mantids.Auth.Rights
import Mantids.RPC.FullAuth

/-! What the reports of an account and of a group list, against the rights that are in force. -/

set_option autoImplicit false

namespace Mantids

open Library Auth

namespace Json

theorem lookup_field (name x : String) (items : List Json) :
    (field name items).lookup x = if x = name ∧ items ≠ [] then some (array items) else none := by
  unfold field
  cases items with
  | nil => simp
  | cons item rest =>
    by_cases same : x = name
    · simp [same]
    · simp [same, List.lookup, beq_eq_false_iff_ne.mpr same]

/-- The items of the one field of a name. -/
theorem items_field {members : List (String × Json)} {x : String} {items : List Json}
    (found : members.lookup x = (field x items).lookup x) : (object members).items x = items := by
  have value : (object members).find x = (field x items).lookup x := found
  unfold Json.items
  rw [value, lookup_field]
  cases items <;> simp

end Json

namespace RPC.FullAuth

section
variable (db : Directory)

/-- The names of the attributes of a set that belong to an application. -/
def attribNames (attribs : OrderedSet Auth.ApplicationAttrib) (applicationName : String) : List String :=
  (attribs.elements.filter fun attrib => attrib.appName = applicationName).map Auth.ApplicationAttrib.attribName

/-- What the report of an account has to show: its groups and applications and those that are left, and for each
of its applications the attributes that it may use and those that are its own. -/
structure AccountReported (payload : Json) : Prop where
  groups : ((accountBasicInfo db payload).names "groups").Perm (db.accountGroups (accountName payload)).elements
  groupsLeft : ((accountBasicInfo db payload).names "groupsLeft").Perm
    (db.groupsList.elements.filter fun groupName => groupName ∉ db.accountGroups (accountName payload))
  applications : ((accountBasicInfo db payload).names "applications").Perm
    (db.accountApplications (accountName payload)).elements
  applicationsLeft : ((accountBasicInfo db payload).names "applicationsLeft").Perm
    (db.applicationList.elements.filter fun appName => appName ∉ db.accountApplications (accountName payload))
  usableAttribs : ∀ item ∈ (accountBasicInfo db payload).items "applications",
    (item.names "usableAttribs").Perm
      (attribNames (db.accountUsableAttribs (accountName payload)) (item.asString "name" ""))
  directAttribs : ∀ item ∈ (accountBasicInfo db payload).items "applications",
    (item.names "directAttribs").Perm
      (attribNames (db.accountDirectAttribs (accountName payload)) (item.asString "name" ""))

/-- What the report of a group has to show: each application that it has attributes of, with those and the others. -/
structure GroupReported (payload : Json) : Prop where
  once : ((groupBasicInfo db payload).names "applications").Nodup
  applications : ∀ appName, appName ∈ (groupBasicInfo db payload).names "applications" ↔
    ∃ attrib ∈ db.groupAttribs (groupName payload), attrib.appName = appName
  attribs : ∀ item ∈ (groupBasicInfo db payload).items "applications",
    (item.names "attribs").Perm (attribNames (db.groupAttribs (groupName payload)) (item.asString "name" ""))
  attribsLeft : ∀ item ∈ (groupBasicInfo db payload).items "applications",
    (item.names "attribsLeft").Perm
      (((db.attribs.select fun attrib _ =>
        attrib.appName = item.asString "name" "" && decide (attrib ∉ db.groupAttribs (groupName payload))).map Prod.fst).map
          Auth.ApplicationAttrib.attribName)

/-! ## When they show it -/

/-- In the applications of the account, its groups grant nothing that it has not been given itself. -/
def GrantsNothing (sAccountName : String) : Prop :=
  ∀ groupName ∈ db.accountGroups sAccountName, ∀ attrib ∈ db.groupAttribs groupName,
    attrib.appName ∈ db.accountApplications sAccountName → attrib ∈ db.accountDirectAttribs sAccountName

/-- One attribute of each application at most; and where the group has one of the application without a name, it has
every attribute of the others. -/
def OneOfEach (groupName : String) : Prop :=
  (∀ first ∈ db.groupAttribs groupName, ∀ second ∈ db.groupAttribs groupName,
    first.appName = second.appName → first = second) ∧
  ((∃ attrib ∈ db.groupAttribs groupName, attrib.appName = "") →
    ∀ attrib, db.attribExist attrib = true → attrib.appName ≠ "" → attrib ∈ db.groupAttribs groupName)

/-! ## The names of attributes -/

variable {db} {payload : Json}

theorem mem_attribNames {attribs : OrderedSet Auth.ApplicationAttrib} {applicationName attribName : String} :
    attribName ∈ attribNames attribs applicationName ↔ ⟨applicationName, attribName⟩ ∈ attribs := by
  rw [attribNames, List.mem_map]
  constructor
  · rintro ⟨attrib, member, rfl⟩
    obtain ⟨listed, application⟩ := List.mem_filter.mp member
    rw [← of_decide_eq_true application]
    exact listed
  · intro member
    exact ⟨_, List.mem_filter.mpr ⟨member, decide_eq_true rfl⟩, rfl⟩

/-- Attributes of one application are told apart by their names. -/
theorem nodup_map_attribName {attribs : List Auth.ApplicationAttrib} {applicationName : String} (once : attribs.Nodup)
    (same : ∀ attrib ∈ attribs, attrib.appName = applicationName) :
    (attribs.map Auth.ApplicationAttrib.attribName).Nodup := by
  refine once.map_on fun first firstMem second secondMem name => ?_
  have application : first.appName = second.appName := (same first firstMem).trans (same second secondMem).symm
  cases first
  cases second
  simp_all

theorem nodup_attribNames (attribs : OrderedSet Auth.ApplicationAttrib) (applicationName : String) :
    (attribNames attribs applicationName).Nodup := by
  apply nodup_map_attribName (attribs.nodup.filter _)
  intro attrib member
  exact of_decide_eq_true (List.mem_filter.mp member).2

theorem attribNames_perm_iff {attribs others : OrderedSet Auth.ApplicationAttrib} {applicationName : String} :
    (attribNames attribs applicationName).Perm (attribNames others applicationName) ↔
      ∀ attrib : Auth.ApplicationAttrib, attrib.appName = applicationName → (attrib ∈ attribs ↔ attrib ∈ others) := by
  rw [List.perm_ext_iff_of_nodup (nodup_attribNames _ _) (nodup_attribNames _ _)]
  constructor
  · rintro same ⟨appName, attribName⟩ rfl
    rw [← mem_attribNames, same, mem_attribNames]
  · intro same attribName
    rw [mem_attribNames, mem_attribNames]
    exact same _ rfl

/-! ## The report of an account -/

@[simp] theorem asString_named (name description : String) (rest : List (String × Json)) :
    Json.asString (.object (named name description ++ rest)) "name" "" = name := by
  simp [Json.asString, Json.find, named]

@[simp] theorem asString_attribItem (attrib : Auth.ApplicationAttrib) :
    (attribItem db attrib).asString "name" "" = attrib.attribName := by
  simpa [attribItem] using asString_named attrib.attribName (db.attribDescription attrib) []

theorem names_map {α : Type} {j : Json} {x : String} {shown : List α} {f : α → Json} {name : α → String}
    (items : j.items x = shown.map f) (own : ∀ y, (f y).asString "name" "" = name y) : j.names x = shown.map name := by
  rw [Json.names, items, List.map_map]
  exact List.map_congr_left fun y _ => own y

theorem names_named {j : Json} {x : String} {shown : List String} {description : String → String}
    (items : j.items x = shown.map fun name => .object (named name (description name))) : j.names x = shown := by
  have own : ∀ name, Json.asString (.object (named name (description name))) "name" "" = id name :=
    fun name => asString_named name (description name) []
  rw [names_map items own, List.map_id]

theorem names_accountBasicInfo_groups :
    (accountBasicInfo db payload).names "groups" = (db.accountGroups (accountName payload)).elements := by
  apply names_named
  apply Json.items_field
  simp [Json.lookup_field, List.lookup_append, List.lookup]
  rfl

theorem names_accountBasicInfo_groupsLeft :
    (accountBasicInfo db payload).names "groupsLeft" =
      db.groupsList.elements.filter fun groupName => groupName ∉ db.accountGroups (accountName payload) := by
  apply names_named
  apply Json.items_field
  simp [Json.lookup_field, List.lookup_append, List.lookup]
  rfl

theorem items_accountBasicInfo_applications :
    (accountBasicInfo db payload).items "applications" =
      (db.accountApplications (accountName payload)).elements.map
        (accountApplicationItem db (db.accountDirectAttribs (accountName payload))) := by
  apply Json.items_field
  simp [Json.lookup_field, List.lookup_append, List.lookup]

theorem names_accountBasicInfo_applicationsLeft :
    (accountBasicInfo db payload).names "applicationsLeft" =
      db.applicationList.elements.filter fun appName => appName ∉ db.accountApplications (accountName payload) := by
  apply names_named
  apply Json.items_field
  simp [Json.lookup_field, List.lookup_append, List.lookup]
  rfl

@[simp] theorem asString_accountApplicationItem (directAttribs : OrderedSet Auth.ApplicationAttrib) (applicationName : String) :
    (accountApplicationItem db directAttribs applicationName).asString "name" "" = applicationName := by
  simp [accountApplicationItem, List.append_assoc]

/-- Both lists of the entry are made of the direct attributes. -/
theorem names_accountApplicationItem (directAttribs : OrderedSet Auth.ApplicationAttrib) (applicationName : String) :
    (accountApplicationItem db directAttribs applicationName).names "directAttribs" =
        attribNames directAttribs applicationName ∧
      (accountApplicationItem db directAttribs applicationName).names "usableAttribs" =
        attribNames directAttribs applicationName := by
  have items : ∀ x, x = "directAttribs" ∨ x = "usableAttribs" →
      (accountApplicationItem db directAttribs applicationName).items x =
        (directAttribs.elements.filter fun attrib => attrib.appName = applicationName).map (attribItem db) := by
    rintro x (rfl | rfl)
    all_goals
      apply Json.items_field
      simp [Json.lookup_field, List.lookup_append, List.lookup, named]
  exact ⟨names_map (items _ (.inl rfl)) asString_attribItem, names_map (items _ (.inr rfl)) asString_attribItem⟩

theorem accountReported_iff : AccountReported db payload ↔ GrantsNothing db (accountName payload) := by
  constructor
  · intro reported groupName group attrib granted application
    have item := reported.usableAttribs
      (accountApplicationItem db (db.accountDirectAttribs (accountName payload)) attrib.appName)
      (by rw [items_accountBasicInfo_applications]; exact List.mem_map_of_mem application)
    rw [(names_accountApplicationItem _ _).2, asString_accountApplicationItem, attribNames_perm_iff] at item
    apply (item attrib rfl).mpr
    rw [Directory.mem_accountUsableAttribs]
    exact .inr ⟨groupName, Directory.mem_accountGroups.mp group, Directory.mem_groupAttribs.mp granted⟩
  · intro nothing
    constructor
    case groups => rw [names_accountBasicInfo_groups]
    case groupsLeft => rw [names_accountBasicInfo_groupsLeft]
    case applications =>
      rw [names_map items_accountBasicInfo_applications (asString_accountApplicationItem _), List.map_id']
    case applicationsLeft => rw [names_accountBasicInfo_applicationsLeft]
    all_goals
      intro item member
      rw [items_accountBasicInfo_applications, List.mem_map] at member
      obtain ⟨applicationName, application, rfl⟩ := member
      rw [asString_accountApplicationItem]
    case directAttribs => rw [(names_accountApplicationItem _ _).1]
    case usableAttribs =>
      rw [(names_accountApplicationItem _ _).2, attribNames_perm_iff]
      rintro attrib rfl
      rw [Directory.mem_accountUsableAttribs, Directory.mem_accountDirectAttribs]
      constructor
      · exact .inl
      · rintro (direct | ⟨groupName, group, granted⟩)
        · exact direct
        · exact Directory.mem_accountDirectAttribs.mp (nothing groupName (Directory.mem_accountGroups.mpr group) attrib
            (Directory.mem_groupAttribs.mpr granted) application)

/-! ## The report of a group -/

theorem mem_openingAttribs {applications : List String} {attribs : List Auth.ApplicationAttrib}
    {attrib : Auth.ApplicationAttrib} (opens : attrib ∈ openingAttribs applications attribs) :
    attrib ∈ attribs ∧ attrib.appName ∉ applications := by
  induction attribs generalizing applications with
  | nil => cases opens
  | cons first rest ih =>
    rw [openingAttribs] at opens
    split at opens
    · obtain ⟨member, new⟩ := ih opens
      exact ⟨List.mem_cons_of_mem _ member, new⟩
    · rename_i unseen
      obtain rfl | opens := List.mem_cons.mp opens
      · exact ⟨List.mem_cons_self, unseen⟩
      · obtain ⟨member, new⟩ := ih opens
        exact ⟨List.mem_cons_of_mem _ member, fun seen => new (List.mem_cons_of_mem _ seen)⟩

/-- Every application that is not yet mapped gets its entry. -/
theorem exists_openingAttrib {applications : List String} {attribs : List Auth.ApplicationAttrib}
    {attrib : Auth.ApplicationAttrib} (member : attrib ∈ attribs) (unseen : attrib.appName ∉ applications) :
    ∃ first ∈ openingAttribs applications attribs, first.appName = attrib.appName := by
  induction attribs generalizing applications with
  | nil => cases member
  | cons first rest ih =>
    rw [openingAttribs]
    obtain rfl | later := List.mem_cons.mp member
    · rw [if_neg unseen]
      exact ⟨attrib, List.mem_cons_self, rfl⟩
    · split
      · exact ih later unseen
      · by_cases same : first.appName = attrib.appName
        · exact ⟨first, List.mem_cons_self, same⟩
        · have still : attrib.appName ∉ first.appName :: applications := by
            simp [unseen, Ne.symm same]
          obtain ⟨opening, opens, application⟩ := ih later still
          exact ⟨opening, List.mem_cons_of_mem _ opens, application⟩

theorem nodup_openingAttribs (applications : List String) (attribs : List Auth.ApplicationAttrib) :
    ((openingAttribs applications attribs).map Auth.ApplicationAttrib.appName).Nodup := by
  induction attribs generalizing applications with
  | nil => exact List.nodup_nil
  | cons first rest ih =>
    rw [openingAttribs]
    split
    · exact ih applications
    · rw [List.map_cons, List.nodup_cons]
      refine ⟨fun member => ?_, ih _⟩
      obtain ⟨other, opens, same⟩ := List.mem_map.mp member
      exact (mem_openingAttribs opens).2 (same ▸ List.mem_cons_self)

/-- The attributes that open an entry of the report. -/
def entries (db : Directory) (payload : Json) : List Auth.ApplicationAttrib :=
  openingAttribs [] (db.groupAttribs (groupName payload)).elements

theorem items_groupBasicInfo_applications :
    (groupBasicInfo db payload).items "applications" =
      (entries db payload).map (groupApplicationItem db (db.groupAttribs (groupName payload))) := by
  apply Json.items_field
  simp [Json.lookup_field, List.lookup_append, List.lookup, entries]

section
variable (directAttribs : OrderedSet Auth.ApplicationAttrib) (attrib : Auth.ApplicationAttrib)

@[simp] theorem asString_groupApplicationItem :
    (groupApplicationItem db directAttribs attrib).asString "name" "" = attrib.appName := by
  simp [groupApplicationItem, List.append_assoc]

theorem names_groupApplicationItem_attribs :
    (groupApplicationItem db directAttribs attrib).names "attribs" =
      (directAttribs.elements.filter fun attrib2 => attrib.appName = attrib2.appName).map fun _ => attrib.attribName := by
  have items : (groupApplicationItem db directAttribs attrib).items "attribs" =
      (directAttribs.elements.filter fun attrib2 => attrib.appName = attrib2.appName).map fun _ =>
        attribItem db attrib := by
    apply Json.items_field
    simp [Json.lookup_field, List.lookup_append, List.lookup, named]
  exact names_map items fun _ => asString_attribItem attrib

/-- The attributes that the entry shows as left. -/
def leftAttribs (db : Directory) : List Auth.ApplicationAttrib :=
  (db.attribsList attrib.appName).elements.filter fun attrib2 => attrib2 ∉ directAttribs

theorem names_groupApplicationItem_attribsLeft :
    (groupApplicationItem db directAttribs attrib).names "attribsLeft" =
      (leftAttribs directAttribs attrib db).map Auth.ApplicationAttrib.attribName := by
  have items : (groupApplicationItem db directAttribs attrib).items "attribsLeft" =
      (leftAttribs directAttribs attrib db).map (attribItem db) := by
    apply Json.items_field
    simp [Json.lookup_field, List.lookup_append, List.lookup, named, leftAttribs]
  exact names_map items asString_attribItem

theorem names_attribs_iff (member : attrib ∈ directAttribs) :
    ((groupApplicationItem db directAttribs attrib).names "attribs").Perm (attribNames directAttribs attrib.appName) ↔
      ∀ other ∈ directAttribs, other.appName = attrib.appName → other = attrib := by
  rw [names_groupApplicationItem_attribs]
  constructor
  · intro perm other listed application
    have mentioned : other.attribName ∈ attribNames directAttribs attrib.appName := by
      rw [mem_attribNames, ← application]
      exact listed
    obtain ⟨-, -, name⟩ := List.mem_map.mp (perm.mem_iff.mpr mentioned)
    cases other
    cases attrib
    simp_all
  · intro only
    have one : (directAttribs.elements.filter fun attrib2 => attrib2.appName = attrib.appName) = [attrib] := by
      have once := directAttribs.nodup.filter fun attrib2 => attrib2.appName = attrib.appName
      apply List.perm_singleton.mp
      apply (List.perm_ext_iff_of_nodup once (List.nodup_singleton attrib)).mpr
      intro other
      rw [List.mem_filter, List.mem_singleton]
      constructor
      · rintro ⟨listed, application⟩
        exact only other listed (of_decide_eq_true application)
      · rintro rfl
        exact ⟨member, decide_eq_true rfl⟩
    have turned : (directAttribs.elements.filter fun attrib2 => attrib.appName = attrib2.appName) = [attrib] := by
      rw [← one]
      simp only [eq_comm]
    rw [attribNames, one, turned]
    rfl

theorem names_attribsLeft_iff :
    ((groupApplicationItem db directAttribs attrib).names "attribsLeft").Perm
        (((db.attribs.select fun other _ => other.appName = attrib.appName && decide (other ∉ directAttribs)).map
          Prod.fst).map Auth.ApplicationAttrib.attribName) ↔
      ∀ other ∈ leftAttribs directAttribs attrib db, other.appName = attrib.appName := by
  rw [names_groupApplicationItem_attribsLeft]
  have once : (leftAttribs directAttribs attrib db).Nodup := (OrderedSet.nodup _).filter _
  have own : ((db.attribs.select fun other _ => other.appName = attrib.appName && decide (other ∉ directAttribs)).map
        Prod.fst).Perm
      ((leftAttribs directAttribs attrib db).filter fun other => other.appName = attrib.appName) := by
    apply (List.perm_ext_iff_of_nodup (nodup_select _ _) (once.filter _)).mpr
    intro other
    rw [leftAttribs, List.mem_filter, List.mem_filter, OrderedSet.mem_elements, Directory.mem_attribsList,
      Directory.attribExist, List.mem_map]
    simp only [Prod.exists, mem_select, Bool.and_eq_true, decide_eq_true_eq, exists_and_right, exists_eq_right,
      Option.isSome_iff_exists]
    tauto
  rw [((own.map Auth.ApplicationAttrib.attribName).congr_right _)]
  constructor
  · intro perm
    have length := perm.length_eq
    rw [List.length_map, List.length_map] at length
    intro other member
    exact of_decide_eq_true (List.length_filter_eq_length_iff.mp length.symm other member)
  · intro all
    rw [List.filter_eq_self.mpr fun other member => decide_eq_true (all other member)]

end

theorem groupReported_iff : GroupReported db payload ↔ OneOfEach db (groupName payload) := by
  have opened : ∀ attrib ∈ db.groupAttribs (groupName payload),
      ∃ first ∈ entries db payload, first.appName = attrib.appName := fun attrib member =>
    exists_openingAttrib member List.not_mem_nil
  have opening : ∀ {first}, first ∈ entries db payload → first ∈ db.groupAttribs (groupName payload) := fun opens =>
    (mem_openingAttribs opens).1
  constructor
  case mp =>
    intro reported
    have listed : ∀ first ∈ entries db payload, ∀ other ∈ db.groupAttribs (groupName payload),
        other.appName = first.appName → other = first := by
      intro first opens
      have item := reported.attribs _ (by
        rw [items_groupBasicInfo_applications]
        exact List.mem_map_of_mem opens)
      rw [asString_groupApplicationItem] at item
      exact (names_attribs_iff _ first (opening opens)).mp item
    constructor
    case left =>
      intro one oneMem two twoMem same
      obtain ⟨first, opens, application⟩ := opened one oneMem
      rw [listed first opens one oneMem application.symm, listed first opens two twoMem (same ▸ application.symm)]
    case right =>
      rintro ⟨unnamed, unnamedMem, empty⟩ attrib known named
      obtain ⟨first, opens, application⟩ := opened unnamed unnamedMem
      have item := reported.attribsLeft _ (by
        rw [items_groupBasicInfo_applications]
        exact List.mem_map_of_mem opens)
      rw [asString_groupApplicationItem, names_attribsLeft_iff] at item
      by_contra missing
      apply named
      rw [item attrib, application, empty]
      rw [leftAttribs, List.mem_filter, OrderedSet.mem_elements, Directory.mem_attribsList]
      exact ⟨⟨known, .inl (application.trans empty)⟩, decide_eq_true missing⟩
  case mpr =>
    rintro ⟨single, all⟩
    have names : (groupBasicInfo db payload).names "applications" =
        (entries db payload).map Auth.ApplicationAttrib.appName :=
      names_map items_groupBasicInfo_applications (asString_groupApplicationItem _)
    constructor
    case once =>
      rw [names]
      exact nodup_openingAttribs _ _
    case applications =>
      intro appName
      rw [names, List.mem_map]
      constructor
      · rintro ⟨first, opens, rfl⟩
        exact ⟨first, opening opens, rfl⟩
      · rintro ⟨attrib, member, rfl⟩
        exact opened attrib member
    all_goals
      intro item member
      rw [items_groupBasicInfo_applications, List.mem_map] at member
      obtain ⟨first, opens, rfl⟩ := member
      rw [asString_groupApplicationItem]
    case attribs =>
      exact (names_attribs_iff _ first (opening opens)).mpr fun other member same =>
        single other member first (opening opens) same
    case attribsLeft =>
      apply (names_attribsLeft_iff _ first).mpr
      intro other member
      rw [leftAttribs, List.mem_filter, OrderedSet.mem_elements, Directory.mem_attribsList] at member
      obtain ⟨⟨known, unnamed | same⟩, missing⟩ := member
      · by_contra different
        rw [unnamed] at different
        exact of_decide_eq_true missing (all ⟨first, opening opens, unnamed⟩ other known different)
      · exact same

/-- The reports tell the truth just where the account's groups add nothing in its applications, and where the group
has at most one attribute of each. -/
theorem reported_iff (db : Directory) (account group : Json) :
    (AccountReported db account ↔ GrantsNothing db (accountName account)) ∧
      (GroupReported db group ↔ OneOfEach db (groupName group)) :=
  ⟨accountReported_iff, groupReported_iff⟩

/-- What an account may do through its group is not shown. -/
theorem not_reported :
    let db : Directory := { Directory.empty with
      accounts := AList.singleton "alice" ⟨"", "", "", "", "", false, none, 0, 0, true, true⟩
      applications := AList.singleton "shop" ⟨"alice", "", ""⟩
      attribs := AList.singleton ⟨"shop", "BUY"⟩ ""
      applicationUsers := AList.singleton ("alice", "shop") ()
      groups := AList.singleton "staff" ""
      groupsAccounts := AList.singleton ("staff", "alice") ()
      attribsGroups := AList.singleton (⟨"shop", "BUY"⟩, "staff") () }
    ¬AccountReported db (.object [("accountName", .string "alice")]) := by
  intro db reported
  have usable := reported.usableAttribs
  revert usable
  decide +kernel

end

end RPC.FullAuth

end Mantids
