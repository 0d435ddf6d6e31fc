import Mantids.Memory.Search

/-! The recursion of `I_Chunk_GetPosForOffset` on 64-bit words (`b_chunks.cpp`): its arguments with their defaults,
and the formula for the next position. -/

set_option autoImplicit false

namespace Mantids.Memory.BChunks

/-- An argument that is left out, and the answer that nothing is found. -/
abbrev maxSizeT : UInt64 := 18446744073709551615

/-- How far a call gets: `deeper` where more calls are nested in it than are allowed, `outside` where it reads
past the vector. -/
inductive PosForOffset where
  | deeper
  | outside
  | returned (pos : UInt64)
  deriving DecidableEq, Repr

def nextPos (curmax curmin : UInt64) : UInt64 :=
  if curmin = curmax then curmin else curmin + (curmax + 1 - curmin) / 2 - (curmax - curmin) % 2

/-- The call and those nested in it, `depth` in all. -/
def getPosForOffset (chunks : List BinaryContainerChunk) (offset : UInt64) :
    (depth : Nat) → (curpos curmax curmin : UInt64) → PosForOffset
  | 0, _, _, _ => .deeper
  | depth + 1, curpos, curmax, curmin =>
    let size := UInt64.ofNat chunks.length
    if size = 0 then .returned maxSizeT
    else
      let curpos := if curpos = maxSizeT then (if size = 1 then 0 else size / 2 - 1) else curpos
      let curmax := if curmax = maxSizeT then (if size = 1 then 0 else size - 1) else curmax
      let curmin := if curmin = maxSizeT then 0 else curmin
      match chunks[curpos.toNat]? with
      | none => .outside
      | some chunk =>
        if chunk.containsOffset offset.toNat then .returned curpos
        else if offset.toNat < chunk.offset then
          if curpos = curmin then .returned maxSizeT
          else getPosForOffset chunks offset depth (nextPos (curpos - 1) curmin) (curpos - 1) curmin
        else
          if curpos = curmax then .returned maxSizeT
          else getPosForOffset chunks offset depth (nextPos curmax (curpos + 1)) curmax (curpos + 1)

/-! ## The words are the numbers of the search -/

/-- The word that stands for where a search ends. -/
def answer : Search → UInt64
  | .found pos => .ofNat pos
  | .fault | .missing => maxSizeT

section
variable {curpos curmax curmin : Nat}

theorem toNat_word {number : Nat} (small : number < 2 ^ 64) : (UInt64.ofNat number).toNat = number := by
  rw [UInt64.toNat_ofNat', Nat.mod_eq_of_lt small]

theorem word_inj {first second : Nat} (small : first < 2 ^ 64) (other : second < 2 ^ 64) :
    UInt64.ofNat first = UInt64.ofNat second ↔ first = second := by
  rw [← UInt64.toNat_inj, toNat_word small, toNat_word other]

/-- No position of a vector is taken for an argument that is left out. -/
theorem word_ne_max {number : Nat} (small : number < 2 ^ 64 - 1) : UInt64.ofNat number ≠ maxSizeT := by
  intro same
  have equal := congrArg UInt64.toNat same
  rw [toNat_word (by omega)] at equal
  have top : maxSizeT.toNat = 2 ^ 64 - 1 := by decide
  omega

theorem nextPos_word (le : curmin ≤ curmax) (small : curmax < 2 ^ 64 - 1) :
    nextPos (.ofNat curmax) (.ofNat curmin) = .ofNat (middle curmin curmax) := by
  have bounds := middle_bounds le
  unfold nextPos middle at *
  by_cases same : curmin = curmax
  · rw [if_pos same, if_pos ((word_inj (by omega) (by omega)).mpr same)]
  rw [if_neg same] at bounds ⊢
  rw [if_neg fun equal => same ((word_inj (by omega) (by omega)).mp equal)]
  apply UInt64.toNat_inj.mp
  have lower := toNat_word (show curmin < 2 ^ 64 by omega)
  have upper := toNat_word (show curmax < 2 ^ 64 by omega)
  have width : (UInt64.ofNat curmax + 1 - .ofNat curmin).toNat = curmax + 1 - curmin := by
    rw [UInt64.toNat_sub, UInt64.toNat_add, lower, upper, UInt64.toNat_one]
    omega
  have parity : (UInt64.ofNat curmax - .ofNat curmin).toNat = curmax - curmin := by
    rw [UInt64.toNat_sub, lower, upper]
    omega
  rw [toNat_word (by omega), UInt64.toNat_sub, UInt64.toNat_add, UInt64.toNat_div, UInt64.toNat_mod, lower, width,
    parity]
  simp only [UInt64.reduceToNat]
  omega

theorem word_pred (positive : 0 < curpos) (small : curpos < 2 ^ 64) :
    UInt64.ofNat curpos - 1 = .ofNat (curpos - 1) := by
  apply UInt64.toNat_inj.mp
  rw [UInt64.toNat_sub, toNat_word small, toNat_word (by omega), UInt64.toNat_one]
  omega

theorem word_succ (small : curpos < 2 ^ 64 - 1) : UInt64.ofNat curpos + 1 = .ofNat (curpos + 1) := by
  apply UInt64.toNat_inj.mp
  rw [UInt64.toNat_add, toNat_word (by omega), toNat_word (by omega), UInt64.toNat_one]
  omega

variable {chunks : List BinaryContainerChunk}

/-- Within bounds of the vector a call does what the search on numbers does. -/
theorem getPosForOffset_searchFrom (short : chunks.length < 2 ^ 64) {offset : UInt64} {depth : Nat}
    (above : curmin ≤ curpos) (below : curpos ≤ curmax) (bound : curmax < chunks.length)
    (ends : searchFrom chunks offset.toNat depth curpos curmax curmin ≠ .fault) :
    getPosForOffset chunks offset depth (.ofNat curpos) (.ofNat curmax) (.ofNat curmin) =
      .returned (answer (searchFrom chunks offset.toNat depth curpos curmax curmin)) := by
  induction depth generalizing curpos curmax curmin with
  | zero => exact absurd rfl ends
  | succ depth ih =>
    have inside : curpos < chunks.length := by omega
    have some : UInt64.ofNat chunks.length ≠ 0 := by
      intro none
      have equal := congrArg UInt64.toNat none
      rw [toNat_word short, UInt64.toNat_zero] at equal
      omega
    simp only [searchFrom, List.getElem?_eq_getElem inside] at ends ⊢
    simp only [getPosForOffset, if_neg some, if_neg (word_ne_max (show curpos < 2 ^ 64 - 1 by omega)),
      if_neg (word_ne_max (show curmax < 2 ^ 64 - 1 by omega)),
      if_neg (word_ne_max (show curmin < 2 ^ 64 - 1 by omega)),
      toNat_word (show curpos < 2 ^ 64 by omega), List.getElem?_eq_getElem inside,
      word_inj (show curpos < 2 ^ 64 by omega) (show curmin < 2 ^ 64 by omega),
      word_inj (show curpos < 2 ^ 64 by omega) (show curmax < 2 ^ 64 by omega)]
    by_cases here : chunks[curpos].containsOffset offset.toNat = true
    · rw [if_pos here, if_pos here]
      rfl
    rw [if_neg here] at ends ⊢
    rw [if_neg here]
    by_cases down : offset.toNat < chunks[curpos].offset
    · rw [if_pos down] at ends ⊢
      rw [if_pos down]
      by_cases first : curpos = curmin
      · rw [if_pos first, if_pos first]
        rfl
      · rw [if_neg first] at ends ⊢
        have middle := middle_bounds (show curmin ≤ curpos - 1 by omega)
        rw [if_neg first, word_pred (by omega) (by omega), nextPos_word (by omega) (by omega)]
        exact ih middle.1 middle.2 (by omega) ends
    · rw [if_neg down] at ends ⊢
      rw [if_neg down]
      by_cases last : curpos = curmax
      · rw [if_pos last, if_pos last]
        rfl
      · rw [if_neg last] at ends ⊢
        have middle := middle_bounds (show curpos + 1 ≤ curmax by omega)
        rw [if_neg last, word_succ (by omega), nextPos_word (by omega) (by omega)]
        exact ih middle.1 middle.2 bound ends

/-- A call without positions starts in the middle of the vector. -/
theorem getPosForOffset_default (bare : chunks.length ≠ 0) (short : chunks.length < 2 ^ 64) (offset : UInt64)
    (depth : Nat) :
    getPosForOffset chunks offset depth maxSizeT maxSizeT maxSizeT =
      getPosForOffset chunks offset depth (.ofNat (if chunks.length = 1 then 0 else chunks.length / 2 - 1))
        (.ofNat (chunks.length - 1)) (.ofNat 0) := by
  cases depth with
  | zero => rfl
  | succ depth =>
    have some : UInt64.ofNat chunks.length ≠ 0 := by
      rw [show (0 : UInt64) = .ofNat 0 from rfl, Ne, word_inj short (by omega)]
      exact bare
    have single : UInt64.ofNat chunks.length = 1 ↔ chunks.length = 1 := by
      rw [show (1 : UInt64) = .ofNat 1 from rfl, word_inj short (by omega)]
    have start : (if UInt64.ofNat chunks.length = 1 then 0 else UInt64.ofNat chunks.length / 2 - 1) =
        .ofNat (if chunks.length = 1 then 0 else chunks.length / 2 - 1) := by
      by_cases one : chunks.length = 1
      · rw [if_pos (single.mpr one), if_pos one]
        rfl
      · rw [if_neg (fun equal => one (single.mp equal)), if_neg one]
        apply UInt64.toNat_inj.mp
        rw [toNat_word (by omega), UInt64.toNat_sub, UInt64.toNat_div, toNat_word short]
        simp only [UInt64.reduceToNat]
        omega
    have stop : (if UInt64.ofNat chunks.length = 1 then 0 else UInt64.ofNat chunks.length - 1) =
        .ofNat (chunks.length - 1) := by
      rw [word_pred (by omega) short]
      by_cases one : chunks.length = 1
      · rw [if_pos (single.mpr one), one]
        rfl
      · rw [if_neg fun equal => one (single.mp equal)]
    have small : (if chunks.length = 1 then 0 else chunks.length / 2 - 1) < 2 ^ 64 - 1 := by
      split <;> omega
    simp only [getPosForOffset, if_neg some, if_true, start, stop, if_neg (word_ne_max small),
      if_neg (word_ne_max (show chunks.length - 1 < 2 ^ 64 - 1 by omega)),
      if_neg (word_ne_max (show 0 < 2 ^ 64 - 1 by omega))]
    rfl

end

/-! ## What is found -/

theorem length_le_totalSize {chunks : List BinaryContainerChunk} (full : ∀ chunk ∈ chunks, chunk.size ≠ 0) :
    chunks.length ≤ totalSize chunks := by
  induction chunks with
  | nil => exact Nat.le_refl _
  | cons chunk rest ih =>
    have here := full chunk (.head _)
    have later := ih fun other member => full other (.tail _ member)
    rw [List.length_cons, totalSize_cons]
    omega

theorem containsOffset_iff_holds {chunks : List BinaryContainerChunk} (offsets : OffsetsFrom 0 chunks)
    (word : totalSize chunks < 2 ^ 64) (offset : Nat) {i : Nat} (inside : i < chunks.length) :
    chunks[i].containsOffset offset = true ↔ Holds chunks offset i := by
  have start := offsets.getElem inside
  rw [Nat.zero_add] at start
  rw [BinaryContainerChunk.containsOffset, decide_eq_true_eq, nextOffset_getElem offsets word inside, start]
  constructor
  · intro contained
    exact ⟨inside, contained.1, contained.2⟩
  · intro holds
    exact ⟨holds.start, holds.stop⟩

section
variable {chunks : List BinaryContainerChunk} (offsets : OffsetsFrom 0 chunks)
  (full : ∀ chunk ∈ chunks, chunk.size ≠ 0) (word : totalSize chunks < 2 ^ 64)
include offsets full word

/-- The outcome of a call, with the position of the search. -/
theorem getPosForOffset_spec (offset : UInt64) {depth : Nat} (enough : chunks.length < depth) :
    (∃ pos, getPosForOffset chunks offset depth maxSizeT maxSizeT maxSizeT = .returned (.ofNat pos) ∧
        Holds chunks offset.toNat pos) ∨
      getPosForOffset chunks offset depth maxSizeT maxSizeT maxSizeT = .returned maxSizeT ∧
        totalSize chunks ≤ offset.toNat := by
  have short := Nat.lt_of_le_of_lt (length_le_totalSize full) word
  by_cases bare : chunks.length = 0
  · obtain ⟨depth, rfl⟩ : ∃ less, depth = less + 1 := ⟨depth - 1, by omega⟩
    right
    constructor
    · simp only [getPosForOffset, bare]
      exact if_pos rfl
    · rw [List.length_eq_zero_iff.mp bare]
      exact Nat.zero_le _
  have whole : totalSize (chunks.take (chunks.length - 1 + 1)) = totalSize chunks := by
    rw [Nat.sub_add_cancel (by omega), List.take_length]
  have below : (if chunks.length = 1 then 0 else chunks.length / 2 - 1) ≤ chunks.length - 1 := by
    split <;> omega
  have stop : offset.toNat < totalSize (chunks.take (chunks.length - 1 + 1)) ∨ totalSize chunks ≤ offset.toNat := by
    omega
  have within : chunks.length - 1 - 0 < depth := by omega
  have spec := searchFrom_spec offsets word (Nat.zero_le _) below (by omega) within (Nat.zero_le _) stop
  rw [getPosForOffset_default bare short]
  rcases spec with ⟨pos, found, holds⟩ | ⟨missing, beyond⟩
  · left
    refine ⟨pos, ?_, holds⟩
    rw [getPosForOffset_searchFrom short (Nat.zero_le _) below (by omega) (by simp only [found, ne_eq, reduceCtorEq,
      not_false_eq_true]), found]
    rfl
  · right
    refine ⟨?_, beyond⟩
    rw [getPosForOffset_searchFrom short (Nat.zero_le _) below (by omega) (by simp only [missing, ne_eq, reduceCtorEq,
      not_false_eq_true]), missing]
    rfl

/-- However many chunks there are, the calls come to an end inside the vector, with the one chunk that has the
offset, or with none at all past the last of them. -/
theorem getPosForOffset_finds (offset : UInt64) :
    ∃ pos, (∀ depth, chunks.length < depth →
        getPosForOffset chunks offset depth maxSizeT maxSizeT maxSizeT = .returned pos) ∧
      (pos = maxSizeT ↔ totalSize chunks ≤ offset.toNat) ∧
      ∀ (i : Nat) (inside : i < chunks.length), chunks[i].containsOffset offset.toNat = true ↔ i = pos.toNat := by
  have short := Nat.lt_of_le_of_lt (length_le_totalSize full) word
  have spec {depth : Nat} (enough : chunks.length < depth) := getPosForOffset_spec offsets full word offset enough
  by_cases beyond : totalSize chunks ≤ offset.toNat
  · have nowhere (pos : Nat) : ¬Holds chunks offset.toNat pos := by
      intro holds
      have stop := holds.stop
      have le := totalSize_take_le chunks (pos + 1)
      omega
    refine ⟨maxSizeT, ?_, iff_of_true rfl beyond, ?_⟩
    · intro depth enough
      rcases spec enough with ⟨pos, -, holds⟩ | ⟨missing, -⟩
      · exact absurd holds (nowhere pos)
      · exact missing
    · intro i inside
      have top : maxSizeT.toNat = 2 ^ 64 - 1 := by decide
      rw [containsOffset_iff_holds offsets word offset.toNat inside]
      exact iff_of_false (nowhere i) (by omega)
  · obtain ⟨pos, -, holds⟩ := (spec (Nat.lt_succ_self _)).resolve_right fun missing => beyond missing.2
    have bound := holds.bound
    refine ⟨.ofNat pos, ?_, iff_of_false (word_ne_max (by omega)) beyond, ?_⟩
    · intro depth enough
      obtain ⟨other, here, only⟩ := (spec enough).resolve_right fun missing => beyond missing.2
      rwa [only.unique holds] at here
    · intro i inside
      rw [containsOffset_iff_holds offsets word offset.toNat inside, toNat_word (by omega)]
      constructor
      · intro here
        exact here.unique holds
      · intro equal
        rwa [equal]

end

theorem getPosForOffset_finds_second :
    ∃ pos, (∀ depth, 2 < depth →
        getPosForOffset [⟨[1], 0⟩, ⟨[2, 3], 1⟩] 2 depth maxSizeT maxSizeT maxSizeT = .returned pos) ∧
      (pos = maxSizeT ↔ 3 ≤ (2 : UInt64).toNat) ∧
      ∀ (i : Nat) (inside : i < 2), ([⟨[1], 0⟩, ⟨[2, 3], 1⟩] : List BinaryContainerChunk)[i].containsOffset 2 = true ↔
        i = pos.toNat := by
  have offsets : OffsetsFrom 0 [⟨[1], 0⟩, ⟨[2, 3], 1⟩] := ⟨rfl, rfl, trivial⟩
  exact getPosForOffset_finds offsets (by decide) (by decide) 2

end Mantids.Memory.BChunks
