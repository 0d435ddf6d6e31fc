import Mathlib

/-! Multimaps: entries in the order of their keys, those of one key in the order in
which they came. -/

set_option autoImplicit false

namespace Library

structure Multimap (K V : Type) [LT K] where
  entries : List (K × V)
  ordered : entries.Pairwise fun a b => ¬ b.1 < a.1

namespace Multimap

section
variable {K V W : Type} [LT K]

@[ext] theorem ext {m n : Multimap K V} (same : m.entries = n.entries) : m = n := by
  cases m
  cases n
  cases same
  rfl

instance [DecidableEq K] [DecidableEq V] : DecidableEq (Multimap K V) := fun _ _ =>
  decidable_of_iff _ Multimap.ext_iff.symm

def empty : Multimap K V := ⟨[], .nil⟩

def map (f : V → W) (m : Multimap K V) : Multimap K W where
  entries := m.entries.map fun entry => (entry.1, f entry.2)
  ordered := List.pairwise_map.mpr m.ordered

/-- What the entries amount to, each with the weight of its key and its value. -/
def weight (f : K → V → Nat) (m : Multimap K V) : Nat := (m.entries.map fun entry => f entry.1 entry.2).sum

variable [DecidableLT K]

/-- Behind the entries of the key, before those of a greater one. -/
def place (key : K) (value : V) : List (K × V) → List (K × V)
  | [] => [(key, value)]
  | entry :: rest => if key < entry.1 then (key, value) :: entry :: rest else entry :: place key value rest

theorem place_perm (key : K) (value : V) (entries : List (K × V)) :
    (place key value entries).Perm ((key, value) :: entries) := by
  induction entries with
  | nil => rfl
  | cons entry rest ih =>
    unfold place
    split
    · rfl
    · exact (ih.cons entry).trans (.swap _ _ rest)

theorem place_last {key : K} (value : V) {entries : List (K × V)} (last : ∀ entry ∈ entries, ¬ key < entry.1) :
    place key value entries = entries ++ [(key, value)] := by
  induction entries with
  | nil => rfl
  | cons entry rest ih =>
    rw [place, if_neg (last entry List.mem_cons_self), ih fun other member => last other (.tail _ member)]
    rfl

variable [Trans (α := K) (· < ·) (· < ·) (· < ·)] [Std.Irrefl (α := K) (· < ·)]

theorem place_ordered {entries : List (K × V)} (ordered : entries.Pairwise fun a b => ¬ b.1 < a.1) (key : K)
    (value : V) : (place key value entries).Pairwise fun a b => ¬ b.1 < a.1 := by
  induction ordered with
  | nil => exact List.pairwise_singleton _ _
  | @cons entry rest first later ih =>
    unfold place
    split
    · rename_i less
      refine .cons ?_ (.cons first later)
      intro other member lower
      have below : other.1 < entry.1 := Trans.trans lower less
      rcases List.mem_cons.mp member with rfl | after
      · exact Std.Irrefl.irrefl _ below
      · exact first other after below
    · rename_i notLess
      refine .cons ?_ ih
      intro other member
      rcases List.mem_cons.mp ((place_perm key value rest).mem_iff.mp member) with rfl | old
      · exact notLess
      · exact first other old

def insert (key : K) (value : V) (m : Multimap K V) : Multimap K V :=
  ⟨place key value m.entries, place_ordered m.ordered key value⟩

@[simp] theorem length_insert (key : K) (value : V) (m : Multimap K V) :
    (m.insert key value).entries.length = m.entries.length + 1 :=
  (place_perm key value m.entries).length_eq

theorem mem_insert {key : K} {value : V} {m : Multimap K V} {entry : K × V} :
    entry ∈ (m.insert key value).entries ↔ entry = (key, value) ∨ entry ∈ m.entries :=
  (place_perm key value m.entries).mem_iff.trans List.mem_cons

@[simp] theorem weight_insert (f : K → V → Nat) (key : K) (value : V) (m : Multimap K V) :
    (m.insert key value).weight f = m.weight f + f key value := by
  have same := ((place_perm key value m.entries).map fun entry => f entry.1 entry.2).sum_eq
  rw [List.map_cons, List.sum_cons] at same
  exact same.trans (Nat.add_comm _ _)

/-- Entries that come in their order are inserted one behind the other. -/
theorem entries_foldl_insert (rest : List (K × V)) (m : Multimap K V)
    (ordered : (m.entries ++ rest).Pairwise fun a b => ¬ b.1 < a.1) :
    (rest.foldl (fun m entry => m.insert entry.1 entry.2) m).entries = m.entries ++ rest := by
  induction rest generalizing m with
  | nil => exact (List.append_nil _).symm
  | cons entry rest ih =>
    have last : (m.insert entry.1 entry.2).entries = m.entries ++ [entry] := by
      apply place_last
      intro other member
      exact (List.pairwise_append.mp ordered).2.2 other member entry List.mem_cons_self
    rw [List.foldl_cons, ih _ (by rwa [last, List.append_assoc]), last, List.append_assoc]
    rfl

theorem foldl_insert_empty (m : Multimap K V) :
    m.entries.foldl (fun m entry => m.insert entry.1 entry.2) empty = m := by
  apply ext
  exact entries_foldl_insert m.entries empty m.ordered

end

section
variable {K V W : Type} [LT K] [DecidableEq K]

/-- The first value of the key. -/
def find (key : K) (m : Multimap K V) : Option V := (m.entries.find? fun entry => entry.1 = key).map (·.2)

/-- The values of the key, in the order in which they came. -/
def values (key : K) (m : Multimap K V) : List V := (m.entries.filter fun entry => entry.1 = key).map (·.2)

def erase (key : K) (m : Multimap K V) : Multimap K V :=
  ⟨m.entries.filter fun entry => entry.1 ≠ key, m.ordered.filter _⟩

theorem find_eq (key : K) (m : Multimap K V) : m.find key = (m.values key).head? := by
  rw [find, values, List.head?_map, List.head?_filter]

theorem mem_values {key : K} {value : V} {m : Multimap K V} : value ∈ m.values key ↔ (key, value) ∈ m.entries := by
  simp [values]

@[simp] theorem values_map (f : V → W) (key : K) (m : Multimap K V) : (m.map f).values key = (m.values key).map f := by
  simp [values, map, List.filter_map, Function.comp_def]

theorem values_erase (key other : K) (m : Multimap K V) :
    (m.erase key).values other = if other = key then [] else m.values other := by
  unfold values erase
  rw [List.filter_filter]
  split
  · rename_i same
    subst same
    simp
  · rename_i different
    congr 1
    apply List.filter_congr
    intro entry _
    by_cases here : entry.1 = other <;> simp [here, different]

variable [DecidableLT K] [Trans (α := K) (· < ·) (· < ·) (· < ·)] [Std.Irrefl (α := K) (· < ·)]

omit [Trans (α := K) (· < ·) (· < ·) (· < ·)] in
theorem filter_place {key : K} (value : V) {entries : List (K × V)}
    (ordered : entries.Pairwise fun a b => ¬ b.1 < a.1) (other : K) :
    (place key value entries).filter (fun entry => entry.1 = other) =
      entries.filter (fun entry => entry.1 = other) ++ if other = key then [(key, value)] else [] := by
  induction ordered with
  | nil =>
    by_cases same : key = other
    · simp [place, same]
    · simp [place, same, Ne.symm same]
  | @cons entry rest first later ih =>
    unfold place
    split
    · rename_i less
      -- Behind a greater key there is none that is equal.
      have absent : ∀ one ∈ entry :: rest, one.1 ≠ key := by
        intro one member same
        rcases List.mem_cons.mp member with rfl | behind
        · exact Std.Irrefl.irrefl _ (same ▸ less)
        · exact first one behind (same ▸ less)
      by_cases same : other = key
      · subst same
        have none : (entry :: rest).filter (fun one => decide (one.1 = other)) = [] := by
          simpa using absent
        rw [List.filter_cons, none]
        simp
      · rw [List.filter_cons]
        simp [same, Ne.symm same]
    · rw [List.filter_cons, List.filter_cons, ih]
      split
      · rfl
      · rfl

theorem values_insert (key other : K) (value : V) (m : Multimap K V) :
    (m.insert key value).values other = m.values other ++ if other = key then [value] else [] := by
  rw [values, values, insert, filter_place value m.ordered, List.map_append]
  split <;> rfl

theorem values_foldl_insert (entries : List (K × V)) (m : Multimap K V) (key : K) :
    (entries.foldl (fun m entry => m.insert entry.1 entry.2) m).values key =
      m.values key ++ (entries.filter fun entry => entry.1 = key).map (·.2) := by
  induction entries generalizing m with
  | nil => simp
  | cons entry rest ih =>
    rw [List.foldl_cons, ih, values_insert, List.filter_cons]
    by_cases same : entry.1 = key
    · simp [same]
    · simp [same, Ne.symm same]

omit [LT K] [DecidableLT K] [Trans (α := K) (· < ·) (· < ·) (· < ·)] [Std.Irrefl (α := K) (· < ·)] in
/-- Entries with the same keys that have the same values for each key are the same. -/
theorem eq_of_filter {entries others : List (K × V)} (keys : entries.map Prod.fst = others.map Prod.fst)
    (same : ∀ key, (entries.filter fun entry => entry.1 = key).map (·.2) =
      (others.filter fun entry => entry.1 = key).map (·.2)) : entries = others := by
  induction entries generalizing others with
  | nil => exact (List.map_eq_nil_iff.mp keys.symm).symm
  | cons entry rest ih =>
    cases others with
    | nil => cases keys
    | cons other more =>
      obtain ⟨key, later⟩ := List.cons.inj keys
      have here := same entry.1
      rw [List.filter_cons, if_pos (by simp), List.filter_cons, if_pos (by simpa using key.symm)] at here
      have value := (List.cons.inj here).1
      have equal : entry = other := Prod.ext key value
      subst equal
      rw [ih later]
      intro wanted
      have whole := same wanted
      by_cases mine : entry.1 = wanted
      · rw [List.filter_cons, if_pos (by simpa using mine), List.filter_cons, if_pos (by simpa using mine)] at whole
        exact (List.cons.inj whole).2
      · rwa [List.filter_cons, if_neg (by simpa using mine), List.filter_cons, if_neg (by simpa using mine)] at whole

/-- Entries with the same keys make different multimaps, unless they are the same. -/
theorem foldl_insert_inj {entries others : List (K × V)} (keys : entries.map Prod.fst = others.map Prod.fst)
    (m : Multimap K V) : entries.foldl (fun m entry => m.insert entry.1 entry.2) m =
      others.foldl (fun m entry => m.insert entry.1 entry.2) m ↔ entries = others := by
  constructor
  · intro same
    apply eq_of_filter keys
    intro key
    have values := congrArg (values key) same
    rwa [values_foldl_insert, values_foldl_insert, List.append_cancel_left_eq] at values
  · rintro rfl
    rfl

end

end Multimap

end Library
