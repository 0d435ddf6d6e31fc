import Mantids.Library.Table

/-! The statements of an ideal SQL engine on one table: rows under a unique key, kept in a stable order. -/

set_option autoImplicit false

namespace Library

section
variable {K V : Type} [DecidableEq K]

/-- The refusal of a key that is in use. -/
def Table.insertRow (table : Table K V) (key : K) (row : V) : Option (Table K V) :=
  if (table.get key).isSome then none else some (table.insert key row)

def Table.updateRow (table : Table K V) (key : K) (change : V → V) : Table K V :=
  match table.get key with
  | some row => table.insert key (change row)
  | none => table

omit [DecidableEq K] in
theorem nodupKeys_filter (table : Table K V) (keep : K → V → Bool) :
    (table.entries.filter fun row => keep row.1 row.2).NodupKeys :=
  table.nodupKeys.sublist List.filter_sublist

omit [DecidableEq K] in
def Table.deleteWhere (table : Table K V) (gone : K → V → Bool) : Table K V :=
  ⟨table.entries.filter fun row => !gone row.1 row.2, nodupKeys_filter table fun key row => !gone key row⟩

omit [DecidableEq K] in
def Table.select (table : Table K V) (wanted : K → V → Bool) : List (K × V) :=
  (table.entries.filter fun row => wanted row.1 row.2).map fun row => (row.1, row.2)

omit [DecidableEq K] in
/-- The columns that a table is read for. -/
def Table.mapRows {W : Type} (table : Table K V) (read : V → W) : Table K W :=
  ⟨table.entries.map (Sigma.map id fun _ => read), by
    rw [List.NodupKeys, List.keys, List.map_map]
    exact table.nodupKeys⟩

theorem insertRow_fresh {table : Table K V} {key : K} (row : V) (fresh : table.get key = none) :
    table.insertRow key row = some (table.insert key row) := by
  simp [Table.insertRow, fresh]

theorem insertRow_used {table : Table K V} {key : K} (row : V) (used : table.get key ≠ none) :
    table.insertRow key row = none := by
  simp [Table.insertRow, Option.isSome_iff_ne_none, used]

theorem get_updateRow (table : Table K V) (key other : K) (change : V → V) :
    (table.updateRow key change).get other = if other = key then (table.get key).map change else table.get other := by
  unfold Table.updateRow
  cases found : table.get key with
  | none =>
    dsimp only [Option.map_none]
    split
    · rename_i same
      rw [same, found]
    · rfl
  | some row => rw [get_insert, Option.map_some]

theorem get_filter {table : Table K V} {keep : K → V → Bool} (key : K) :
    Table.get ⟨table.entries.filter fun row => keep row.1 row.2, nodupKeys_filter table keep⟩ key =
      (table.get key).filter (keep key) := by
  refine Option.ext fun value => ?_
  rw [← mem_entries_iff, Option.filter_eq_some_iff, ← mem_entries_iff]
  exact List.mem_filter

theorem get_deleteWhere (table : Table K V) (gone : K → V → Bool) (key : K) :
    (table.deleteWhere gone).get key = (table.get key).filter fun row => !gone key row :=
  @get_filter _ _ _ table (fun key row => !gone key row) key

theorem mem_select {table : Table K V} {wanted : K → V → Bool} {key : K} {row : V} :
    (key, row) ∈ table.select wanted ↔ table.get key = some row ∧ wanted key row = true := by
  rw [← mem_entries_iff, Table.select, List.mem_map]
  constructor
  · rintro ⟨⟨key', row'⟩, member, same⟩
    cases same
    exact List.mem_filter.mp member
  · intro member
    exact ⟨⟨key, row⟩, List.mem_filter.mpr member, rfl⟩

omit [DecidableEq K] in
/-- No row is selected twice. -/
theorem nodup_select (table : Table K V) (wanted : K → V → Bool) :
    ((table.select wanted).map Prod.fst).Nodup := by
  rw [Table.select, List.map_map]
  exact nodupKeys_filter table wanted

end

/-- A table of pairs that are there or not. -/
abbrev Links (K : Type) := Table K Unit

section
variable {K : Type} [DecidableEq K]

def Table.linked (table : Links K) (key : K) : Bool := (table.get key).isSome

omit [DecidableEq K] in
def Table.links (table : Links K) (wanted : K → Bool) : List K :=
  (table.select fun key _ => wanted key).map Prod.fst

theorem mem_links {table : Links K} {wanted : K → Bool} {key : K} :
    key ∈ table.links wanted ↔ table.linked key = true ∧ wanted key = true := by
  rw [Table.links, List.mem_map, Table.linked, Option.isSome_iff_exists]
  constructor
  · rintro ⟨⟨key', row⟩, member, rfl⟩
    obtain ⟨found, chosen⟩ := mem_select.mp member
    exact ⟨⟨row, found⟩, chosen⟩
  · rintro ⟨⟨row, found⟩, chosen⟩
    exact ⟨(key, row), mem_select.mpr ⟨found, chosen⟩, rfl⟩

theorem linked_deleteWhere (table : Links K) (gone : K → Bool) (key : K) :
    (table.deleteWhere fun key _ => gone key).linked key = (table.linked key && !gone key) := by
  rw [Table.linked, get_deleteWhere, Table.linked]
  cases table.get key <;> cases gone key <;> simp [Option.filter]

end

/-! ## Pages -/

section
variable {α β : Type}

/-- `LIMIT` and `OFFSET`, where a limit of zero is none. -/
def page (limit offset : Nat) (rows : List α) : List α :=
  if limit = 0 then rows else (rows.drop offset).take limit

/-- What the pages of the given limits show, each page starting where the one before ends. -/
def pages (search : (limit offset : Nat) → List α) : (offset : Nat) → (limits : List Nat) → List α
  | _, [] => []
  | offset, limit :: rest => search limit offset ++ pages search (offset + limit) rest

end

end Library
