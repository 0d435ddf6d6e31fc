import Mantids.Library.Relation

/-! Tables whose rows refer to the keys of other tables. -/

set_option autoImplicit false

namespace Library

section
variable {K V P W : Type} [DecidableEq K] [DecidableEq P]

/-- Every row of the first table refers to a key that the second one has. -/
def References (child : Table K V) (ref : K → V → P) (parent : Table P W) : Prop :=
  ∀ key row, child.get key = some row → (parent.get (ref key row)).isSome = true

variable {child child' : Table K V} {ref : K → V → P} {parent parent' : Table P W}

theorem References.linked {child : Links K} {ref : K → Unit → P} (refers : References child ref parent) {key : K}
    (member : child.linked key = true) : (parent.get (ref key ())).isSome = true := by
  obtain ⟨row, found⟩ := Option.isSome_iff_exists.mp member
  exact refers key row found

theorem insertRow_eq_some {key : K} {row : V} (inserted : child.insertRow key row = some child') :
    child.get key = none ∧ child' = child.insert key row := by
  unfold Table.insertRow at inserted
  split at inserted
  case isTrue => cases inserted
  case isFalse unused =>
    cases inserted
    exact ⟨Option.not_isSome_iff_eq_none.mp unused, rfl⟩

/-! ## The table that refers -/

theorem References.insertRow {key : K} {row : V} (refers : References child ref parent)
    (there : (parent.get (ref key row)).isSome = true) (inserted : child.insertRow key row = some child') :
    References child' ref parent := by
  obtain ⟨-, rfl⟩ := insertRow_eq_some inserted
  intro other found holds
  rw [get_insert] at holds
  split at holds
  case isTrue same =>
    cases holds
    rw [same]
    exact there
  case isFalse => exact refers other found holds

theorem References.updateRow {key : K} {change : V → V} (refers : References child ref parent)
    (same : ∀ key row, ref key (change row) = ref key row) : References (child.updateRow key change) ref parent := by
  intro other row found
  rw [get_updateRow] at found
  split at found
  case isTrue at_ =>
    obtain ⟨before, stored, rfl⟩ := Option.map_eq_some_iff.mp found
    rw [at_, same]
    exact refers key before stored
  case isFalse => exact refers other row found

/-- A table that keeps some of the rows. -/
theorem References.shrink (refers : References child ref parent)
    (kept : ∀ key row, child'.get key = some row → child.get key = some row) : References child' ref parent :=
  fun key row found => refers key row (kept key row found)

theorem get_of_deleteWhere {gone : K → V → Bool} {key : K} {row : V}
    (found : (child.deleteWhere gone).get key = some row) :
    child.get key = some row ∧ gone key row = false := by
  rw [get_deleteWhere, Option.filter_eq_some_iff] at found
  exact ⟨found.1, by simpa using found.2⟩

theorem get_of_erase {key other : K} {row : V} (found : Table.get (child.erase key) other = some row) :
    child.get other = some row ∧ other ≠ key := by
  rw [get_erase] at found
  split at found
  case isTrue => cases found
  case isFalse different => exact ⟨found, different⟩

theorem References.deleteWhere (gone : K → V → Bool) (refers : References child ref parent) :
    References (child.deleteWhere gone) ref parent :=
  refers.shrink fun _ _ found => (get_of_deleteWhere found).1

theorem References.erase (key : K) (refers : References child ref parent) : References (child.erase key) ref parent :=
  refers.shrink fun _ _ found => (get_of_erase found).1

/-! ## The table that is referred to -/

/-- A table that keeps all keys, with what else it gets. -/
theorem References.grow (refers : References child ref parent)
    (kept : ∀ key, (parent.get key).isSome = true → (parent'.get key).isSome = true) : References child ref parent' :=
  fun key row found => kept _ (refers key row found)

theorem isSome_get_insertRow {key other : P} {row : W} (inserted : parent.insertRow key row = some parent')
    (there : (parent.get other).isSome = true) : (parent'.get other).isSome = true := by
  obtain ⟨-, rfl⟩ := insertRow_eq_some inserted
  rw [get_insert]
  split
  case isTrue => rfl
  case isFalse => exact there

theorem isSome_get_updateRow (parent : Table P W) (key other : P) (change : W → W) :
    ((parent.updateRow key change).get other).isSome = (parent.get other).isSome := by
  rw [get_updateRow]
  split
  case isTrue same => rw [same, Option.isSome_map]
  case isFalse => rfl

/-- The cascade: no row is left that refers to a key that goes. -/
theorem References.cascade {gone : P → W → Bool} (refers : References child ref parent)
    (left : ∀ key row, child'.get key = some row → child.get key = some row ∧
      ∀ parentRow, parent.get (ref key row) = some parentRow → gone (ref key row) parentRow = false) :
    References child' ref (parent.deleteWhere gone) := by
  intro key row found
  obtain ⟨before, stays⟩ := left key row found
  obtain ⟨parentRow, there⟩ := Option.isSome_iff_exists.mp (refers key row before)
  rw [get_deleteWhere, there, Option.filter_some, stays parentRow there]
  rfl

theorem References.cascadeErase {gone : P} (refers : References child ref parent)
    (left : ∀ key row, child'.get key = some row → child.get key = some row ∧ ref key row ≠ gone) :
    References child' ref (parent.erase gone) := by
  intro key row found
  obtain ⟨before, other⟩ := left key row found
  rw [get_erase, if_neg other]
  exact refers key row before

end

end Library
