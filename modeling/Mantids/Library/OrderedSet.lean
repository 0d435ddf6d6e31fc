import Mathlib

/-! Finite sets that are walked in the order of their elements. -/

set_option autoImplicit false

namespace Library

structure OrderedSet (α : Type) [LinearOrder α] where
  elements : List α
  sorted : elements.Pairwise (· < ·)
  deriving DecidableEq

namespace OrderedSet

section
variable {α : Type} [LinearOrder α]

instance : Membership α (OrderedSet α) := ⟨fun set x => x ∈ set.elements⟩

instance (x : α) (set : OrderedSet α) : Decidable (x ∈ set) := inferInstanceAs (Decidable (x ∈ set.elements))

theorem mem_elements {x : α} {set : OrderedSet α} : x ∈ set.elements ↔ x ∈ set := Iff.rfl

theorem nodup (set : OrderedSet α) : set.elements.Nodup := set.sorted.imp fun less => less.ne

def empty : OrderedSet α := ⟨[], .nil⟩

@[simp] theorem not_mem_empty (x : α) : x ∉ (empty : OrderedSet α) := List.not_mem_nil

theorem sorted_orderedInsert {x : α} {xs : List α} (sorted : xs.Pairwise (· < ·)) (new : x ∉ xs) :
    (xs.orderedInsert (· ≤ ·) x).Pairwise (· < ·) := by
  induction xs with
  | nil => exact List.pairwise_singleton _ _
  | cons y ys ih =>
    obtain ⟨least, rest⟩ := List.pairwise_cons.mp sorted
    have other : x ≠ y := List.ne_of_not_mem_cons new
    have later : x ∉ ys := List.not_mem_of_not_mem_cons new
    rw [List.orderedInsert]
    split
    · rename_i before
      have less : x < y := lt_of_le_of_ne before other
      exact List.pairwise_cons.mpr ⟨List.forall_mem_cons.mpr ⟨less, fun z member => less.trans (least z member)⟩, sorted⟩
    · rename_i after
      refine List.pairwise_cons.mpr ⟨fun z member => ?_, ih rest later⟩
      obtain rfl | member := List.mem_orderedInsert _ |>.mp member
      · exact not_le.mp after
      · exact least z member

def insert (set : OrderedSet α) (x : α) : OrderedSet α :=
  if member : x ∈ set.elements then set
  else ⟨set.elements.orderedInsert (· ≤ ·) x, sorted_orderedInsert set.sorted member⟩

@[simp] theorem mem_insert {set : OrderedSet α} {x y : α} : y ∈ set.insert x ↔ y = x ∨ y ∈ set := by
  unfold insert
  split
  · rename_i member
    constructor
    · exact .inr
    · rintro (rfl | member)
      · assumption
      · exact member
  · exact List.mem_orderedInsert _

def insertAll (set : OrderedSet α) (xs : List α) : OrderedSet α := xs.foldl insert set

@[simp] theorem mem_insertAll {set : OrderedSet α} {xs : List α} {y : α} :
    y ∈ set.insertAll xs ↔ y ∈ xs ∨ y ∈ set := by
  induction xs generalizing set with
  | nil => simp [insertAll]
  | cons x xs ih =>
    change y ∈ (set.insert x).insertAll xs ↔ _
    rw [ih, mem_insert, List.mem_cons]
    tauto

def ofList (xs : List α) : OrderedSet α := empty.insertAll xs

@[simp] theorem mem_ofList {xs : List α} {y : α} : y ∈ ofList xs ↔ y ∈ xs := by
  simp [ofList]

def erase (set : OrderedSet α) (x : α) : OrderedSet α :=
  ⟨set.elements.erase x, set.sorted.sublist List.erase_sublist⟩

@[simp] theorem mem_erase {set : OrderedSet α} {x y : α} : y ∈ set.erase x ↔ y ≠ x ∧ y ∈ set :=
  set.nodup.mem_erase_iff

end

end OrderedSet

end Library
