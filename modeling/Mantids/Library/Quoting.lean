import Mathlib

/-! Texts between marks of quotation: fields written one after another, and a reader that knows the mark only. -/

set_option autoImplicit false

namespace Library.Quoting

section
variable {α : Type} [DecidableEq α] (mark : α)

/-- A text between two marks, and what stands in front of them. -/
structure Quoted (α : Type) where
  front : List α
  inside : List α

/-- The quotations that are closed. -/
def read : (front : List α) → (inside : Option (List α)) → List α → List (Quoted α)
  | _, _, [] => []
  | front, none, sign :: rest =>
    if sign = mark then read front (some []) rest else read (front ++ [sign]) none rest
  | front, some inside, sign :: rest =>
    if sign = mark then ⟨front, inside⟩ :: read [] none rest else read front (some (inside ++ [sign])) rest

def quotations (text : List α) : List (Quoted α) := read mark [] none text

def insides (text : List α) : List (List α) := (quotations mark text).map (·.inside)

/-- What a writer puts around a text. -/
structure Framed (α : Type) where
  front : List α
  inside : List α
  back : List α

namespace Framed

def write (field : Framed α) : List α := field.front ++ mark :: (field.inside ++ mark :: field.back)

/-- The only marks are those of the field. -/
structure Clean (field : Framed α) : Prop where
  front : mark ∉ field.front
  inside : mark ∉ field.inside
  back : mark ∉ field.back

end Framed

variable {mark}

/-! ## What is read -/

theorem read_front {text : List α} (absent : mark ∉ text) (front rest : List α) :
    read mark front none (text ++ rest) = read mark (front ++ text) none rest := by
  induction text generalizing front with
  | nil => rw [List.nil_append, List.append_nil]
  | cons sign text ih =>
    rw [List.mem_cons, not_or] at absent
    rw [List.cons_append, read, if_neg (Ne.symm absent.1), ih absent.2, List.append_assoc, List.singleton_append]

theorem read_inside {text : List α} (absent : mark ∉ text) (front inside rest : List α) :
    read mark front (some inside) (text ++ mark :: rest) = ⟨front, inside ++ text⟩ :: read mark [] none rest := by
  induction text generalizing inside with
  | nil => rw [List.nil_append, read, if_pos rfl, List.append_nil]
  | cons sign text ih =>
    rw [List.mem_cons, not_or] at absent
    rw [List.cons_append, read, if_neg (Ne.symm absent.1), ih absent.2, List.append_assoc, List.singleton_append]

theorem read_field {field : Framed α} (clean : field.Clean mark) (front rest : List α) :
    read mark front none (field.write mark ++ rest) =
      ⟨front ++ field.front, field.inside⟩ :: read mark field.back none rest := by
  rw [Framed.write, List.append_assoc, read_front clean.front, List.cons_append, read, if_pos rfl, List.append_assoc,
    List.cons_append, read_inside clean.inside, List.nil_append, read_front clean.back, List.nil_append]

/-! ## Fields of items -/

section
variable {ι β : Type} {items : List ι} {field : ι → Framed α}

/-- The fields are read one by one, each with its own front at the end of what stands before it. -/
theorem map_read_fields (clean : ∀ item ∈ items, (field item).Clean mark) {seen : Quoted α → β} {meant : ι → β}
    (same : ∀ item ∈ items, ∀ before, seen ⟨before ++ (field item).front, (field item).inside⟩ = meant item)
    (front : List α) :
    (read mark front none (items.flatMap fun item => (field item).write mark)).map seen = items.map meant := by
  induction items generalizing front with
  | nil => rfl
  | cons item rest ih =>
    rw [List.flatMap_cons, read_field (clean item List.mem_cons_self), List.map_cons, List.map_cons,
      same item List.mem_cons_self, ih (fun other member => clean other (List.mem_cons_of_mem _ member))
        (fun other member => same other (List.mem_cons_of_mem _ member))]

/-- A text without marks in front is the beginning of the first front. -/
theorem map_quotations_fields {front : List α} (absent : mark ∉ front)
    (clean : ∀ item ∈ items, (field item).Clean mark) {seen : Quoted α → β} {meant : ι → β}
    (same : ∀ item ∈ items, ∀ before, seen ⟨before ++ (field item).front, (field item).inside⟩ = meant item) :
    (quotations mark (front ++ items.flatMap fun item => (field item).write mark)).map seen = items.map meant := by
  rw [quotations, read_front absent, map_read_fields clean same]

/-- There are two marks for each field. -/
theorem count_fields (clean : ∀ item ∈ items, (field item).Clean mark) :
    (items.flatMap fun item => (field item).write mark).count mark = 2 * items.length := by
  induction items with
  | nil => rfl
  | cons item rest ih =>
    obtain ⟨front, inside, back⟩ := clean item List.mem_cons_self
    rw [List.flatMap_cons, List.count_append, ih fun other member => clean other (List.mem_cons_of_mem _ member),
      Framed.write, List.count_append, List.count_cons_self, List.count_append, List.count_cons_self,
      List.count_eq_zero.mpr front, List.count_eq_zero.mpr inside, List.count_eq_zero.mpr back, List.length_cons]
    omega

end

/-! ## Parts in front -/

/-- The quotations of a part in front are the first of the whole. -/
theorem read_append (front : List α) (inside : Option (List α)) (text rest : List α) :
    read mark front inside text <+: read mark front inside (text ++ rest) := by
  induction text generalizing front inside with
  | nil =>
    rw [read]
    exact List.nil_prefix
  | cons sign text ih =>
    rw [List.cons_append]
    cases inside with
    | none =>
      rw [read, read]
      split
      case isTrue => exact ih _ _
      case isFalse => exact ih _ _
    | some inside =>
      rw [read, read]
      split
      case isTrue => exact (List.prefix_cons_inj _).mpr (ih _ _)
      case isFalse => exact ih _ _

theorem insides_append (text rest : List α) : insides mark text <+: insides mark (text ++ rest) :=
  (read_append [] none text rest).map _

end

end Library.Quoting
