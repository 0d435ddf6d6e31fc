import Mathlib

/-! Finite maps read by what they look up, and how many of their values have a property. -/

set_option autoImplicit false

namespace Library

section
variable {K V : Type}

abbrev Table (K V : Type) := AList (fun _ : K => V)

/-- How many entries have a value with the property. -/
def tally (p : V → Bool) (table : Table K V) : Nat := table.entries.countP fun entry => p entry.2

@[simp] theorem tally_empty (p : V → Bool) : tally p (∅ : Table K V) = 0 := rfl

variable [DecidableEq K]

def Table.get (table : Table K V) (key : K) : Option V := table.lookup key

@[simp] theorem get_empty (key : K) : (∅ : Table K V).get key = none := rfl

theorem get_insert (table : Table K V) (key other : K) (value : V) :
    Table.get (table.insert key value) other = if other = key then some value else table.get other := by
  split
  · rename_i same
    subst same
    exact AList.lookup_insert table
  · rename_i different
    exact AList.lookup_insert_ne different

@[simp] theorem get_insert_self (table : Table K V) (key : K) (value : V) :
    Table.get (table.insert key value) key = some value := by
  rw [get_insert, if_pos rfl]

@[simp] theorem get_singleton (key other : K) (value : V) :
    Table.get (AList.singleton key value) other = if other = key then some value else none := by
  rw [← AList.insert_empty, get_insert, get_empty]

theorem get_erase (table : Table K V) (key other : K) :
    Table.get (table.erase key) other = if other = key then none else table.get other := by
  split
  · rename_i same
    subst same
    exact AList.lookup_erase other table
  · rename_i different
    exact AList.lookup_erase_ne different

@[simp] theorem get_erase_self (table : Table K V) (key : K) : Table.get (table.erase key) key = none := by
  rw [get_erase, if_pos rfl]

theorem get_eq_none_iff {table : Table K V} {key : K} : table.get key = none ↔ key ∉ table.keys :=
  AList.lookup_eq_none

theorem mem_entries_iff {table : Table K V} {key : K} {value : V} :
    ⟨key, value⟩ ∈ table.entries ↔ table.get key = some value :=
  AList.mem_lookup_iff.symm

/-- The values that a table keeps of another one decide its tally. -/
theorem tally_filter {p q : V → Bool} {table kept : Table K V}
    (same : ∀ key, kept.get key = (table.get key).filter q) :
    tally p kept = tally (fun value => p value && q value) table := by
  have nodup : (table.entries.filter fun entry => q entry.2).NodupKeys :=
    table.nodupKeys.sublist List.filter_sublist
  have perm : kept.entries.Perm (table.entries.filter fun entry => q entry.2) := by
    refine List.lookup_ext kept.nodupKeys nodup fun key value => ?_
    rw [List.mem_dlookup_iff nodup, List.mem_filter, mem_entries_iff]
    change kept.get key = some value ↔ _
    rw [same, Option.filter_eq_some_iff]
  rw [tally, perm.countP_eq, List.countP_filter]
  rfl

theorem tally_congr {p : V → Bool} {table other : Table K V}
    (same : ∀ key, other.get key = table.get key) : tally p other = tally p table := by
  have kept : ∀ key, other.get key = (table.get key).filter fun _ => true := fun key => by
    rw [same]
    cases table.get key <;> rfl
  simpa using tally_filter (p := p) kept

theorem tally_insert_new {p : V → Bool} {table : Table K V} {key : K} (value : V)
    (fresh : table.get key = none) :
    tally p (table.insert key value) = tally p table + if p value then 1 else 0 := by
  rw [tally, AList.entries_insert_of_notMem (AList.lookup_eq_none.mp fresh), List.countP_cons]
  rfl

theorem tally_erase {p : V → Bool} {table : Table K V} {key : K} {value : V}
    (found : table.get key = some value) :
    tally p (table.erase key) + (if p value then 1 else 0) = tally p table := by
  have back : tally p ((table.erase key).insert key value) = tally p table :=
    tally_congr fun other => by
      rw [get_insert, get_erase]
      split
      · rename_i same
        rw [same, found]
      · rfl
  rw [← back, tally_insert_new value (get_erase_self table key)]

omit [DecidableEq K] in
theorem tally_split (p q : V → Bool) (table : Table K V) :
    tally p table = tally (fun value => p value && q value) table +
      tally (fun value => p value && !q value) table := by
  unfold tally
  rw [List.countP_eq_countP_filter_add _ _ fun entry => q entry.2, List.countP_filter, List.countP_filter]

theorem tally_pos_iff {p : V → Bool} {table : Table K V} :
    0 < tally p table ↔ ∃ key value, table.get key = some value ∧ p value = true := by
  rw [tally, List.countP_pos_iff]
  constructor
  · rintro ⟨⟨key, value⟩, member, holds⟩
    exact ⟨key, value, mem_entries_iff.mp member, holds⟩
  · rintro ⟨key, value, found, holds⟩
    exact ⟨⟨key, value⟩, mem_entries_iff.mpr found, holds⟩

end

end Library
