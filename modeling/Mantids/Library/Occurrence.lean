import Mathlib

/-! Searching a list for needles: the first occurrence of one, the first needle of a
list that occurs at all, and the needle whose occurrence completes first. -/

set_option autoImplicit false

namespace Library

/-! ## Searching the numbers up to a bound -/

section
variable {β : Type} (f : Nat → Option β)

/-- The value at the least number up to `bound` that has one. -/
def leastUpTo : Nat → Option β
  | 0 => f 0
  | bound + 1 => (leastUpTo bound).or (f (bound + 1))

variable {f}

theorem leastUpTo_eq_none_iff {bound : Nat} : leastUpTo f bound = none ↔ ∀ n ≤ bound, f n = none := by
  induction bound with
  | zero => simp [leastUpTo]
  | succ bound ih =>
    rw [leastUpTo, Option.or_eq_none_iff, ih]
    constructor
    · rintro ⟨before, last⟩ n le
      rcases Nat.le_or_eq_of_le_succ le with less | same
      · exact before n less
      · exact same ▸ last
    · intro all
      exact ⟨fun n le => all n (Nat.le_succ_of_le le), all _ (Nat.le_refl _)⟩

theorem leastUpTo_eq_some_iff {bound : Nat} {b : β} :
    leastUpTo f bound = some b ↔ ∃ n ≤ bound, f n = some b ∧ ∀ m < n, f m = none := by
  induction bound with
  | zero => simp [leastUpTo]
  | succ bound ih =>
    rw [leastUpTo, Option.or_eq_some_iff, ih, leastUpTo_eq_none_iff]
    constructor
    · rintro (⟨n, le, value, first⟩ | ⟨before, last⟩)
      · exact ⟨n, Nat.le_succ_of_le le, value, first⟩
      · exact ⟨bound + 1, Nat.le_refl _, last, fun m less => before m (Nat.le_of_lt_succ less)⟩
    · rintro ⟨n, le, value, first⟩
      rcases Nat.le_or_eq_of_le_succ le with less | same
      · exact .inl ⟨n, less, value, first⟩
      · subst same
        exact .inr ⟨fun m le => first m (Nat.lt_succ_of_le le), value⟩

end

/-! ## One needle -/

section
variable {α : Type} [DecidableEq α]

/-- Where the needle first occurs; nothing occurs in an empty list. -/
def occurrence (needle : List α) : List α → Option Nat
  | [] => none
  | a :: rest => if needle <+: a :: rest then some 0 else (occurrence needle rest).map (· + 1)

section
variable {needle s : List α}

theorem occurrence_eq_none_iff : occurrence needle s = none ↔ ∀ i < s.length, ¬needle <+: s.drop i := by
  induction s with
  | nil => simp [occurrence]
  | cons a rest ih =>
    rw [occurrence]
    split
    · rename_i here
      simp only [reduceCtorEq, false_iff, not_forall, not_not]
      exact ⟨0, Nat.zero_lt_succ _, here⟩
    · rename_i later
      rw [Option.map_eq_none_iff, ih]
      constructor
      · intro none i less
        cases i with
        | zero => exact later
        | succ i => exact none i (Nat.lt_of_succ_lt_succ less)
      · intro none i less
        exact none (i + 1) (Nat.succ_lt_succ less)

theorem occurrence_eq_some_iff {i : Nat} :
    occurrence needle s = some i ↔ i < s.length ∧ needle <+: s.drop i ∧ ∀ j < i, ¬needle <+: s.drop j := by
  induction s generalizing i with
  | nil => simp [occurrence]
  | cons a rest ih =>
    rw [occurrence]
    split
    · rename_i here
      rw [Option.some.injEq]
      constructor
      · rintro rfl
        exact ⟨Nat.zero_lt_succ _, here, fun j less => absurd less (Nat.not_lt_zero j)⟩
      · rintro ⟨-, -, first⟩
        by_contra different
        exact first 0 (Nat.pos_of_ne_zero (Ne.symm different)) here
    · rename_i later
      rw [Option.map_eq_some_iff]
      constructor
      · rintro ⟨i, found, rfl⟩
        obtain ⟨less, here, first⟩ := ih.mp found
        refine ⟨Nat.succ_lt_succ less, here, fun j before => ?_⟩
        cases j with
        | zero => exact later
        | succ j => exact first j (Nat.lt_of_succ_lt_succ before)
      · rintro ⟨less, here, first⟩
        cases i with
        | zero => contradiction
        | succ i =>
          exact ⟨i, ih.mpr ⟨Nat.lt_of_succ_lt_succ less, here, fun j before =>
            first (j + 1) (Nat.succ_lt_succ before)⟩, rfl⟩

/-- A needle of one element. -/
theorem occurrence_singleton_of_notMem {a : α} (absent : a ∉ s) : occurrence [a] s = none := by
  rw [occurrence_eq_none_iff]
  intro i less here
  have member := List.mem_of_mem_drop (here.subset List.mem_cons_self)
  exact absent member

/-- Where its first element does not come before it, a needle is where it is. -/
theorem occurrence_of_notMem {a : α} {before : List α} (absent : a ∉ before) (rest after : List α) :
    occurrence (a :: rest) (before ++ a :: (rest ++ after)) = some before.length := by
  induction before with
  | nil => simp [occurrence]
  | cons b before ih =>
    rw [List.mem_cons, not_or] at absent
    have other : ¬a :: rest <+: b :: (before ++ a :: (rest ++ after)) := by
      rw [List.cons_prefix_cons]
      exact fun both => absent.1 both.1
    rw [List.cons_append, occurrence, if_neg other, ih absent.2]
    rfl

theorem occurrence_singleton {a : α} {before : List α} (absent : a ∉ before) (after : List α) :
    occurrence [a] (before ++ a :: after) = some before.length :=
  occurrence_of_notMem absent [] after

/-- Before the first place there is none. -/
theorem not_infix_take_of_occurrence (filled : needle ≠ []) {i : Nat} (found : occurrence needle s = some i) :
    ¬needle <:+: s.take i := by
  rintro ⟨before, after, same⟩
  obtain ⟨-, -, first⟩ := occurrence_eq_some_iff.mp found
  have positive := List.length_pos_of_ne_nil filled
  have length := congrArg List.length same
  rw [List.length_append, List.length_append, List.length_take] at length
  apply first before.length (by omega)
  have whole : before ++ (needle ++ (after ++ s.drop i)) = s := by
    rw [← List.append_assoc needle, ← List.append_assoc, ← List.append_assoc, same, List.take_append_drop]
  rw [← whole, List.drop_left' rfl]
  exact List.prefix_append _ _

theorem occurrence_end_le {i : Nat} (found : occurrence needle s = some i) : i + needle.length ≤ s.length := by
  obtain ⟨less, here, -⟩ := occurrence_eq_some_iff.mp found
  have fits := here.length_le
  rw [List.length_drop] at fits
  omega

/-- A needle at the end is there for the first time if none ends earlier. -/
theorem occurrence_end (filled : needle ≠ []) (absent : ¬needle <:+: s ++ needle.dropLast) :
    occurrence needle (s ++ needle) = some s.length := by
  have length := List.length_pos_iff.mpr filled
  apply occurrence_eq_some_iff.mpr
  refine ⟨?_, ?_, ?_⟩
  · rw [List.length_append]
    omega
  · rw [List.drop_left' rfl]
  · intro j before here
    apply absent
    have bound := here.length_le
    rw [List.length_drop, List.length_append] at bound
    have front : s ++ needle.dropLast = (s ++ needle).take (s.length + (needle.length - 1)) := by
      rw [List.take_length_add_append, List.dropLast_eq_take]
    rw [front]
    apply List.IsInfix.trans _ (List.drop_suffix j _).isInfix
    rw [List.drop_take]
    exact (List.prefix_take_iff.mpr ⟨here, by omega⟩).isInfix

omit [DecidableEq α] in
/-- A needle that does not have the element between two parts lies in one of them. -/
theorem infix_of_infix_append {first second : List α} {a : α} (absent : a ∉ needle)
    (found : needle <:+: first ++ a :: second) : needle <:+: first ∨ needle <:+: second := by
  obtain ⟨before, after, same⟩ := found
  rw [List.append_assoc] at same
  rcases List.append_eq_append_iff.mp same with ⟨rest, rfl, behind⟩ | ⟨rest, rfl, behind⟩
  · -- it starts in the first part
    rcases List.append_eq_append_iff.mp behind with ⟨more, rfl, -⟩ | ⟨more, rfl, overlap⟩
    · exact .inl ⟨before, more, by rw [List.append_assoc]⟩
    · cases more with
      | nil => exact .inl ⟨before, [], by simp⟩
      | cons other more =>
        rw [List.cons_append, List.cons.injEq] at overlap
        exact absurd (overlap.1 ▸ List.mem_append_right _ (.head _)) absent
  · cases rest with
    | nil =>
      -- it starts at the element
      cases needle with
      | nil => exact .inl (List.nil_infix)
      | cons other needle =>
        rw [List.nil_append, List.cons_append, List.cons.injEq] at behind
        exact absurd (behind.1 ▸ .head _) absent
    | cons other rest =>
      rw [List.cons_append, List.cons.injEq] at behind
      exact .inr ⟨rest, after, by rw [List.append_assoc]; exact behind.2.symm⟩

/-- A prefix decides an occurrence that ends in it. -/
theorem occurrence_take_eq_some_iff {n i : Nat} :
    occurrence needle (s.take n) = some i ↔ occurrence needle s = some i ∧ i < n ∧ i + needle.length ≤ n := by
  have inside : ∀ j, j + needle.length ≤ n → (needle <+: (s.take n).drop j ↔ needle <+: s.drop j) := by
    intro j fits
    rw [List.drop_take, List.prefix_take_iff]
    exact and_iff_left (by omega)
  constructor
  · intro found
    have bound := occurrence_end_le found
    obtain ⟨less, here, first⟩ := occurrence_eq_some_iff.mp found
    rw [List.length_take] at less bound
    have fits : i + needle.length ≤ n := by omega
    refine ⟨occurrence_eq_some_iff.mpr ⟨by omega, (inside i fits).mp here, fun j before => ?_⟩, by omega, fits⟩
    exact fun earlier => first j before ((inside j (by omega)).mpr earlier)
  · rintro ⟨found, before, fits⟩
    obtain ⟨less, here, first⟩ := occurrence_eq_some_iff.mp found
    refine occurrence_eq_some_iff.mpr ⟨?_, (inside i fits).mpr here, fun j earlier => ?_⟩
    · rw [List.length_take]
      omega
    · exact fun again => first j earlier ((inside j (by omega)).mp again)

/-- An occurrence that is not there in a prefix ends after it. -/
theorem le_end_of_occurrence {m i : Nat} (found : occurrence needle s = some i)
    (none : occurrence needle (s.take m) = none) : m ≤ i + needle.length := by
  by_contra beyond
  rw [Nat.not_le] at beyond
  have fits := occurrence_end_le found
  have here : occurrence needle (s.take m) = some i := by
    apply occurrence_take_eq_some_iff.mpr
    exact ⟨found, by omega, by omega⟩
  rw [none] at here
  contradiction

theorem occurrence_append {t : List α} {i : Nat} (found : occurrence needle s = some i) :
    occurrence needle (s ++ t) = some i := by
  have front : occurrence needle ((s ++ t).take s.length) = some i := by
    rwa [List.take_left']
    rfl
  exact (occurrence_take_eq_some_iff.mp front).1

/-- A needle of two elements that does not occur before its place. -/
theorem occurrence_pair {a b : α} {before : List α} (different : a ≠ b) (absent : ¬[a, b] <:+: before) (after : List α) :
    occurrence [a, b] (before ++ [a, b] ++ after) = some before.length := by
  apply occurrence_append
  apply occurrence_end (List.cons_ne_nil _ _)
  intro found
  change [a, b] <:+: before ++ [a] at found
  obtain ⟨front, back, same⟩ := found
  -- the last element is not the second of the needle
  cases back using List.reverseRecOn with
  | nil =>
    rw [List.append_nil] at same
    have last := congrArg List.getLast? same
    simp only [List.getLast?_append, List.getLast?_cons_cons, List.getLast?_singleton, Option.some_or,
      Option.some.injEq] at last
    exact different last.symm
  | append_singleton back other _ =>
    rw [← List.append_assoc] at same
    exact absent ⟨front, back, (List.append_inj' same rfl).1⟩

/-- What cannot start an occurrence can be skipped. -/
theorem occurrence_drop {k : Nat} (none : ∀ i < k, ¬needle <+: s.drop i) :
    occurrence needle s = (occurrence needle (s.drop k)).map (· + k) := by
  induction k generalizing s with
  | zero => simp
  | succ k ih =>
    cases s with
    | nil => rfl
    | cons a rest =>
      have skip : occurrence needle (a :: rest) = (occurrence needle rest).map (· + 1) := by
        have first : ¬needle <+: a :: rest := none 0 (Nat.zero_lt_succ k)
        rw [occurrence, if_neg first]
      rw [skip, ih fun i less => none (i + 1) (Nat.succ_lt_succ less), List.drop_succ_cons, Option.map_map]
      congr 1

end

/-! ## Several needles -/

/-- The first needle of the list that occurs at all, and where it first does. -/
def firstListed (needles : List (List α)) (s : List α) : Option (Nat × List α) :=
  needles.findSome? fun needle => (occurrence needle s).map fun i => (i, needle)

/-- The needle whose occurrence is complete first as the list is read. -/
def earliest (needles : List (List α)) (s : List α) : Option (Nat × List α) :=
  leastUpTo (fun n => firstListed needles (s.take n)) s.length

section
variable {needles : List (List α)} {s : List α}

theorem firstListed_eq_none_iff :
    firstListed needles s = none ↔ ∀ needle ∈ needles, occurrence needle s = none := by
  simp [firstListed]

theorem firstListed_eq_some_iff {i : Nat} {needle : List α} :
    firstListed needles s = some (i, needle) ↔ ∃ before after, needles = before ++ needle :: after ∧
      occurrence needle s = some i ∧ ∀ other ∈ before, occurrence other s = none := by
  unfold firstListed
  rw [List.findSome?_eq_some_iff]
  constructor
  · rintro ⟨before, found, after, split, here, none⟩
    obtain ⟨i', same, pair⟩ := Option.map_eq_some_iff.mp here
    cases pair
    exact ⟨before, after, split, same, fun other member => Option.map_eq_none_iff.mp (none other member)⟩
  · rintro ⟨before, after, split, here, none⟩
    refine ⟨before, needle, after, split, by rw [here]; rfl, fun other member => ?_⟩
    rw [none other member]
    rfl

theorem occurrence_of_firstListed {i : Nat} {needle : List α} (found : firstListed needles s = some (i, needle)) :
    needle ∈ needles ∧ occurrence needle s = some i := by
  obtain ⟨before, after, split, here, -⟩ := firstListed_eq_some_iff.mp found
  exact ⟨split ▸ List.mem_append_right _ (.head _), here⟩

theorem firstListed_append_eq_none {t : List α} (none : firstListed needles (s ++ t) = none) :
    firstListed needles s = .none := by
  rw [firstListed_eq_none_iff] at none ⊢
  intro needle member
  cases here : occurrence needle s with
  | none => rfl
  | some i =>
    have later := occurrence_append (t := t) here
    rw [none needle member] at later
    contradiction

theorem earliest_eq_some_iff {found : Nat × List α} : earliest needles s = some found ↔
    ∃ n ≤ s.length, firstListed needles (s.take n) = some found ∧
      ∀ m < n, firstListed needles (s.take m) = none :=
  leastUpTo_eq_some_iff

theorem earliest_eq_none_iff : earliest needles s = none ↔ firstListed needles s = none := by
  unfold earliest
  rw [leastUpTo_eq_none_iff]
  constructor
  · intro none
    have last := none s.length (Nat.le_refl _)
    rwa [List.take_length] at last
  · intro none n _
    rw [← List.take_append_drop n s] at none
    exact firstListed_append_eq_none none

theorem earliest_append {t : List α} {found : Nat × List α} (here : earliest needles s = some found) :
    earliest needles (s ++ t) = some found := by
  obtain ⟨n, le, first, before⟩ := earliest_eq_some_iff.mp here
  have same : ∀ m ≤ n, (s ++ t).take m = s.take m := fun m less =>
    List.take_append_of_le_length (Nat.le_trans less le)
  refine earliest_eq_some_iff.mpr ⟨n, ?_, ?_, fun m less => ?_⟩
  · rw [List.length_append]
    omega
  · rwa [same n (Nat.le_refl _)]
  · rw [same m (Nat.le_of_lt less)]
    exact before m less

section
variable {i : Nat} {needle : List α} (first : earliest needles s = some (i, needle))
include first

theorem occurrence_of_earliest : needle ∈ needles ∧ occurrence needle s = some i := by
  obtain ⟨n, -, found, -⟩ := earliest_eq_some_iff.mp first
  obtain ⟨member, here⟩ := occurrence_of_firstListed found
  exact ⟨member, (occurrence_take_eq_some_iff.mp here).1⟩

/-- An occurrence that is not complete in a prefix ends after it. -/
theorem le_end_of_earliest {m : Nat} (none : firstListed needles (s.take m) = none) :
    m ≤ i + needle.length := by
  obtain ⟨member, here⟩ := occurrence_of_earliest first
  exact le_end_of_occurrence here (firstListed_eq_none_iff.mp none needle member)

/-- The list order finds the needle that completes first exactly when none that is
listed before it occurs. -/
theorem firstListed_eq_earliest_iff : firstListed needles s = some (i, needle) ↔
    ∀ other ∈ needles.takeWhile (· ≠ needle), occurrence other s = none := by
  obtain ⟨member, here⟩ := occurrence_of_earliest first
  rw [firstListed_eq_some_iff]
  constructor
  · rintro ⟨before, after, split, -, none⟩
    have absent : ∀ other ∈ before, decide (other ≠ needle) = true := by
      intro other old
      apply decide_eq_true
      rintro rfl
      rw [none other old] at here
      contradiction
    rw [split, List.takeWhile_append_of_pos absent, List.takeWhile_cons_of_neg (by simp), List.append_nil]
    exact none
  · intro none
    refine ⟨needles.takeWhile (· ≠ needle), (needles.dropWhile (· ≠ needle)).tail, ?_, here, none⟩
    have rest : needles.dropWhile (· ≠ needle) = needle :: (needles.dropWhile (· ≠ needle)).tail := by
      cases left : needles.dropWhile (· ≠ needle) with
      | nil =>
        have all := List.dropWhile_eq_nil_iff.mp left needle member
        simp at all
      | cons first tail =>
        have stopped := List.head?_dropWhile_not (fun other => decide (other ≠ needle)) needles
        rw [left] at stopped
        simp only [List.head?_cons, decide_not, Bool.not_eq_eq_eq_not, Bool.not_false, decide_eq_true_eq] at stopped
        rw [List.tail_cons, stopped]
    rw [← rest, List.takeWhile_append_dropWhile]

end

/-- No needle that is listed before the earliest one occurs. -/
def InOrder (needles : List (List α)) (s : List α) : Prop :=
  ∀ i needle, earliest needles s = some (i, needle) →
    ∀ other ∈ needles.takeWhile (· ≠ needle), occurrence other s = none

theorem inOrder_iff : InOrder needles s ↔ firstListed needles s = earliest needles s := by
  constructor
  · intro order
    cases first : earliest needles s with
    | none => exact earliest_eq_none_iff.mp first
    | some found =>
      obtain ⟨i, needle⟩ := found
      exact (firstListed_eq_earliest_iff first).mpr (order i needle first)
  · intro same i needle first
    exact (firstListed_eq_earliest_iff first).mp (same.trans first)

instance : Decidable (InOrder needles s) := decidable_of_iff _ inOrder_iff.symm

theorem listed_ne_of_not_inOrder (disorder : ¬InOrder needles s) :
    ∃ listed first, firstListed needles s = some listed ∧ earliest needles s = some first ∧ listed.2 ≠ first.2 := by
  simp only [InOrder, not_forall] at disorder
  obtain ⟨i, needle, first, other, early, here⟩ := disorder
  cases found : firstListed needles s with
  | none =>
    rw [earliest_eq_none_iff.mpr found] at first
    contradiction
  | some listed =>
    obtain ⟨j, listed⟩ := listed
    refine ⟨(j, listed), (i, needle), rfl, first, ?_⟩
    rintro rfl
    obtain ⟨-, earliestHere⟩ := occurrence_of_earliest first
    obtain ⟨-, listedHere⟩ := occurrence_of_firstListed found
    cases earliestHere.symm.trans listedHere
    exact here ((firstListed_eq_earliest_iff first).mp found other early)

end

end

end Library
