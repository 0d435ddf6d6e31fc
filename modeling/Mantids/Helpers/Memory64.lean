import Mantids.Library.Copying

/-! The memory functions of `mem.cpp`, which call the C library block by block. -/

set_option autoImplicit false

namespace Mantids.Helpers.Mem

open Library.Copying

abbrev Store := Int → UInt8

/-! ## The C library -/

/-- Bytes compare as they are without a sign. -/
def memcmp (store : Store) (s1 s2 : Int) (n : Nat) : Int :=
  compared (fun one other : UInt8 => (one.toNat : Int) - other.toNat) store s1 s2 n

/-- Operands that overlap are not allowed. -/
def memcpy (store : Store) (dest src : Int) (n : Nat) : Option Store :=
  if dest + n ≤ src ∨ src + n ≤ dest then some (copied store dest src n) else none

def memmove (store : Store) (dest src : Int) (n : Nat) : Store := copied store dest src n

/-! ## The loops over blocks -/

/-- A block for which the C library is called, by where it starts in each operand. -/
structure Block where
  offset : Int
  size : UInt64

/-- A call that has come to its end, with the blocks that it has gone through. -/
structure Ended (ρ : Type) where
  result : ρ
  blocks : List Block

def Ended.after {ρ : Type} (ended : Ended ρ) (block : Block) : Ended ρ :=
  { ended with blocks := block :: ended.blocks }

@[simp] theorem Ended.result_after {ρ : Type} (ended : Ended ρ) (block : Block) :
    (ended.after block).result = ended.result := rfl

abbrev blockSize : UInt64 := 64 * 1024

/-- The block of a loop that is computed once. -/
def firstBlock (n : UInt64) : UInt64 := if blockSize < n then blockSize else n

/-- The loop of `memcmp64`, for `turns` tests of its condition. -/
def memcmpLoop (store : Store) (s1 s2 : Int) (curBlock : UInt64) :
    (turns : Nat) → (curOffset n : UInt64) → Option (Ended Int)
  | 0, _, _ => none
  | turns + 1, curOffset, n =>
    if n = 0 then some ⟨0, []⟩
    else
      let v := memcmp store (s1 + curOffset.toNat) (s2 + curOffset.toNat) curBlock.toNat
      let block : Block := ⟨curOffset.toNat, curBlock⟩
      if v ≠ 0 then some ⟨v, [block]⟩
      else (memcmpLoop store s1 s2 curBlock turns (curOffset + curBlock) (n - curBlock)).map (·.after block)

def memcmp64 (store : Store) (s1 s2 : Int) (n : UInt64) (turns : Nat) : Option (Ended Int) :=
  memcmpLoop store s1 s2 (firstBlock n) turns 0 n

/-- The loop of `memcpy64`; a call that is not allowed has no outcome. -/
def memcpyLoop (dest src : Int) : (turns : Nat) → (curOffset n : UInt64) → Store → Option (Ended Store)
  | 0, _, _, _ => none
  | turns + 1, curOffset, n, store =>
    if n = 0 then some ⟨store, []⟩
    else
      let curBlock := if blockSize < n then blockSize else n
      (memcpy store (dest + curOffset.toNat) (src + curOffset.toNat) curBlock.toNat).bind fun store =>
        (memcpyLoop dest src turns (curOffset + curBlock) (n - curBlock) store).map
          (·.after ⟨curOffset.toNat, curBlock⟩)

def memcpy64 (store : Store) (dest src : Int) (n : UInt64) (turns : Nat) : Option (Ended (Int × Store)) :=
  (memcpyLoop dest src turns 0 n store).map fun ended => ⟨(dest, ended.result), ended.blocks⟩

/-- The loop of `memmove64` from the back. -/
def moveBackLoop (dest src : Int) (curBlock : UInt64) : (turns : Nat) → (n : UInt64) → Store → Option (Ended Store)
  | 0, _, _ => none
  | turns + 1, n, store =>
    if n = 0 then some ⟨store, []⟩
    else
      let offset := (n.toNat : Int) - curBlock.toNat
      (moveBackLoop dest src curBlock turns (n - curBlock)
        (memmove store (dest + offset) (src + offset) curBlock.toNat)).map (·.after ⟨offset, curBlock⟩)

/-- The loop of `memmove64` from the front. -/
def moveFrontLoop (dest src : Int) (curBlock : UInt64) :
    (turns : Nat) → (curOffset n : UInt64) → Store → Option (Ended Store)
  | 0, _, _, _ => none
  | turns + 1, curOffset, n, store =>
    if n = 0 then some ⟨store, []⟩
    else
      (moveFrontLoop dest src curBlock turns (curOffset + curBlock) (n - curBlock)
        (memmove store (dest + curOffset.toNat) (src + curOffset.toNat) curBlock.toNat)).map
          (·.after ⟨curOffset.toNat, curBlock⟩)

def memmove64 (store : Store) (dest src : Int) (n : UInt64) (turns : Nat) : Option (Ended (Int × Store)) :=
  (if src < dest then moveBackLoop dest src (firstBlock n) turns n store
    else if dest < src then moveFrontLoop dest src (firstBlock n) turns 0 n store
    else some ⟨store, []⟩).map fun ended => ⟨(dest, ended.result), ended.blocks⟩

/-! ## What the calls amount to -/

/-- Only the `n` bytes of each operand are touched. -/
def Ended.Inside {ρ : Type} (ended : Ended ρ) (n : UInt64) : Prop :=
  ∀ block ∈ ended.blocks, 0 ≤ block.offset ∧ block.offset + block.size.toNat ≤ n.toNat

inductive Call where
  | memcmp64 (s1 s2 : Int) (n : UInt64)
  | memcpy64 (dest src : Int) (n : UInt64)
  | memmove64 (dest src : Int) (n : UInt64)

/-- The call ends, inside of its operands, with what the function of the C library gives, if that is defined. -/
def Call.Standard (store : Store) : Call → Prop
  | memcmp64 s1 s2 n => ∃ turns ended, Mem.memcmp64 store s1 s2 n turns = some ended ∧
      ended.result.sign = (memcmp store s1 s2 n.toNat).sign ∧ ended.Inside n
  | memcpy64 dest src n => ∀ expected, memcpy store dest src n.toNat = some expected →
      ∃ turns ended, Mem.memcpy64 store dest src n turns = some ended ∧
        ended.result = (dest, expected) ∧ ended.Inside n
  | memmove64 dest src n => ∃ turns ended, Mem.memmove64 store dest src n turns = some ended ∧
      ended.result = (dest, memmove store dest src n.toNat) ∧ ended.Inside n

/-- One block, or a number of whole ones. -/
def InBlocks (n : UInt64) : Prop := n ≤ blockSize ∨ blockSize.toNat ∣ n.toNat

/-- The whole blocks in front of a part of one. -/
def wholeBlocks (n : UInt64) : Nat := n.toNat / blockSize.toNat * blockSize.toNat

/-- Where a part of a block is left, the comparison must be over before it, and a move has nothing to do. -/
def Call.Fits (store : Store) : Call → Prop
  | memcmp64 s1 s2 n => InBlocks n ∨ ¬Same store s1 s2 (wholeBlocks n)
  | memcpy64 _ _ _ => True
  | memmove64 dest src n => InBlocks n ∨ dest = src

/-! ## Comparing -/

/-- The blocks of a call are between two offsets. -/
def Ended.Between {ρ : Type} (ended : Ended ρ) (first last : Int) : Prop :=
  ∀ block ∈ ended.blocks, first ≤ block.offset ∧ block.offset + block.size.toNat ≤ last

theorem Ended.Between.after {ρ : Type} {ended : Ended ρ} {first last : Int} {block : Block}
    (between : ended.Between first last) (start : first ≤ block.offset)
    (stop : block.offset + block.size.toNat ≤ last) : (ended.after block).Between first last := by
  intro touched member
  rcases List.mem_cons.mp member with rfl | later
  · exact ⟨start, stop⟩
  · exact between touched later

theorem Ended.Between.wider {ρ : Type} {ended : Ended ρ} {first last earlier later : Int}
    (between : ended.Between first last) (start : earlier ≤ first) (stop : last ≤ later) :
    ended.Between earlier later := by
  intro block member
  have bounds := between block member
  omega

theorem ne_zero_of_pos {n : UInt64} (positive : 0 < n.toNat) : n ≠ 0 := by
  rintro rfl
  exact absurd positive (Nat.lt_irrefl 0)

/-- The counters of a loop behind a block that fits. -/
theorem next_words {curOffset n curBlock : UInt64} (le : curBlock.toNat ≤ n.toNat)
    (room : curOffset.toNat + n.toNat < 2 ^ 64) :
    (n - curBlock).toNat = n.toNat - curBlock.toNat ∧
      (curOffset + curBlock).toNat = curOffset.toNat + curBlock.toNat := by
  constructor
  · exact UInt64.toNat_sub_of_le _ _ le
  · rw [UInt64.toNat_add, Nat.mod_eq_of_lt (by omega)]

theorem memcmp_eq_zero_iff {store : Store} {s1 s2 : Int} {n : Nat} :
    memcmp store s1 s2 n = 0 ↔ Same store s1 s2 n := by
  apply compared_eq_zero_iff
  intro one other differ zero
  exact differ (UInt8.toNat_inj.mp (by omega))

section
variable {store : Store} {s1 s2 : Int} {curBlock : UInt64}

/-- Over whole blocks the loop comes to an end, at the last of them or where they differ. -/
theorem memcmpLoop_ends {k turns : Nat} {curOffset n : UInt64} (positive : 0 < curBlock.toNat ∨ k = 0)
    (enough : k < turns) (room : curOffset.toNat + n.toNat < 2 ^ 64)
    (ends : n.toNat = k * curBlock.toNat ∨ k * curBlock.toNat ≤ n.toNat ∧
      ¬Same store (s1 + curOffset.toNat) (s2 + curOffset.toNat) (k * curBlock.toNat)) :
    ∃ ended, memcmpLoop store s1 s2 curBlock turns curOffset n = some ended ∧
      ended.result = memcmp store (s1 + curOffset.toNat) (s2 + curOffset.toNat) (k * curBlock.toNat) ∧
      ended.Between curOffset.toNat (curOffset.toNat + (k * curBlock.toNat : Nat)) := by
  induction k generalizing turns curOffset n with
  | zero =>
    obtain ⟨turns, rfl⟩ := Nat.exists_eq_add_one_of_ne_zero (Nat.ne_zero_of_lt enough)
    rw [Nat.zero_mul] at ends ⊢
    rcases ends with none | ⟨-, differs⟩
    · have zero : n = 0 := UInt64.toNat_inj.mp none
      rw [memcmpLoop, if_pos zero]
      exact ⟨_, rfl, rfl, fun block member => absurd member List.not_mem_nil⟩
    · exact absurd (fun i less => absurd less (Nat.not_lt_zero i)) differs
  | succ k ih =>
    obtain ⟨turns, rfl⟩ := Nat.exists_eq_add_one_of_ne_zero (Nat.ne_zero_of_lt enough)
    have size := positive.resolve_right (Nat.succ_ne_zero k)
    rw [Nat.succ_mul] at ends ⊢
    have le : curBlock.toNat ≤ n.toNat := by omega
    have some : n ≠ 0 := ne_zero_of_pos (by omega)
    rw [memcmpLoop, if_neg some]
    simp only
    by_cases same : Same store (s1 + curOffset.toNat) (s2 + curOffset.toNat) curBlock.toNat
    · obtain ⟨left, offset⟩ := next_words le room
      have shifted (s : Int) : s + ((curOffset + curBlock).toNat : Int) = s + curOffset.toNat + curBlock.toNat := by
        omega
      have further : (n - curBlock).toNat = k * curBlock.toNat ∨ k * curBlock.toNat ≤ (n - curBlock).toNat ∧
          ¬Same store (s1 + (curOffset + curBlock).toNat) (s2 + (curOffset + curBlock).toNat)
            (k * curBlock.toNat) := by
        rw [shifted, shifted]
        rcases ends with whole | ⟨fits, differs⟩
        · left
          omega
        · right
          refine ⟨by omega, ?_⟩
          rw [Nat.add_comm, same_add] at differs
          exact fun later => differs ⟨same, later⟩
      obtain ⟨ended, loop, result, between⟩ := ih (.inl size) (show k < turns by omega) (by omega) further
      rw [if_neg (not_not.mpr (memcmp_eq_zero_iff.mpr same)), loop]
      refine ⟨_, rfl, ?_, ?_⟩
      · rw [shifted, shifted] at result
        rw [Nat.add_comm]
        exact result.trans (compared_of_same _ _ same).symm
      · exact (between.wider (by omega) (by omega)).after (Int.le_refl _) (by dsimp only; omega)
    · rw [if_pos (mt memcmp_eq_zero_iff.mp same)]
      refine ⟨_, rfl, ?_, ?_⟩
      · rw [Nat.add_comm]
        exact (compared_of_differs _ _ same).symm
      · intro block member
        obtain rfl := List.mem_singleton.mp member
        dsimp only
        omega

/-- Where the whole blocks are the same and a part of one is left, the next call goes past the operands. -/
theorem memcmpLoop_outside {k turns : Nat} {curOffset n : UInt64} {rest : Nat} {ended : Ended Int}
    (loop : memcmpLoop store s1 s2 curBlock turns curOffset n = some ended)
    (room : curOffset.toNat + n.toNat < 2 ^ 64) (part : n.toNat = k * curBlock.toNat + rest) (some : 0 < rest)
    (less : rest < curBlock.toNat)
    (same : Same store (s1 + curOffset.toNat) (s2 + curOffset.toNat) (k * curBlock.toNat)) :
    ¬ended.Between 0 (curOffset.toNat + n.toNat) := by
  induction k generalizing turns curOffset n ended with
  | zero =>
    -- the block is longer than what is left
    obtain ⟨turns, rfl⟩ : ∃ less, turns = less + 1 := by
      cases turns with
      | zero => cases loop
      | succ turns => exact ⟨turns, rfl⟩
    have more : n ≠ 0 := ne_zero_of_pos (by omega)
    rw [memcmpLoop, if_neg more] at loop
    simp only at loop
    intro between
    have here : ⟨curOffset.toNat, curBlock⟩ ∈ ended.blocks := by
      split at loop
      case isTrue =>
        obtain rfl := Option.some.inj loop
        exact .head _
      case isFalse =>
        obtain ⟨later, -, rfl⟩ := Option.map_eq_some_iff.mp loop
        exact .head _
    have stop := (between _ here).2
    dsimp only at stop
    omega
  | succ k ih =>
    obtain ⟨turns, rfl⟩ : ∃ less, turns = less + 1 := by
      cases turns with
      | zero => cases loop
      | succ turns => exact ⟨turns, rfl⟩
    rw [Nat.succ_mul] at part same
    have le : curBlock.toNat ≤ n.toNat := by omega
    obtain ⟨left, offset⟩ := next_words le room
    rw [Nat.add_comm, same_add] at same
    have more : n ≠ 0 := ne_zero_of_pos (by omega)
    rw [memcmpLoop, if_neg more] at loop
    simp only at loop
    rw [if_neg (not_not.mpr (memcmp_eq_zero_iff.mpr same.1))] at loop
    obtain ⟨later, call, rfl⟩ := Option.map_eq_some_iff.mp loop
    intro between
    have shifted (s : Int) : s + ((curOffset + curBlock).toNat : Int) = s + curOffset.toNat + curBlock.toNat := by
      omega
    refine ih call (by omega) (by omega) (by rw [shifted, shifted]; exact same.2) ?_
    intro block member
    have bounds := between block (.tail _ member)
    omega

end

/-! ## Copying -/

section
variable {dest src : Int}

/-- The size of a block is computed anew in each turn. -/
theorem memcpyLoop_ends {turns : Nat} {curOffset n : UInt64} {store : Store} (enough : n.toNat < turns)
    (room : curOffset.toNat + n.toNat < 2 ^ 64)
    (apart : dest + (curOffset.toNat + n.toNat : Nat) ≤ src ∨ src + (curOffset.toNat + n.toNat : Nat) ≤ dest) :
    ∃ ended, memcpyLoop dest src turns curOffset n store = some ended ∧
      ended.result = copied store (dest + curOffset.toNat) (src + curOffset.toNat) n.toNat ∧
      ended.Between curOffset.toNat (curOffset.toNat + n.toNat) := by
  induction turns generalizing curOffset n store with
  | zero => omega
  | succ turns ih =>
    rw [memcpyLoop]
    by_cases zero : n = 0
    · rw [if_pos zero, zero]
      exact ⟨_, rfl, copied_zero.symm, fun block member => absurd member List.not_mem_nil⟩
    rw [if_neg zero]
    have positive : 0 < n.toNat := by
      rw [Nat.pos_iff_ne_zero]
      exact fun none => zero (UInt64.toNat_inj.mp none)
    generalize block : (if blockSize < n then blockSize else n) = curBlock
    have size : 0 < curBlock.toNat ∧ curBlock.toNat ≤ n.toNat := by
      subst block
      split
      case isTrue more => exact ⟨by decide, Nat.le_of_lt (UInt64.lt_iff_toNat_lt.mp more)⟩
      case isFalse => exact ⟨positive, Nat.le_refl _⟩
    obtain ⟨left, offset⟩ := next_words size.2 room
    simp only [memcpy]
    rw [if_pos (by omega), Option.bind_some]
    obtain ⟨ended, loop, result, between⟩ := @ih (curOffset + curBlock) (n - curBlock)
      (copied store (dest + curOffset.toNat) (src + curOffset.toNat) curBlock.toNat) (by omega) (by omega)
      (by rwa [left, offset, Nat.add_assoc, Nat.add_sub_cancel' size.2])
    rw [loop]
    refine ⟨_, rfl, ?_, ?_⟩
    · rw [Ended.result_after, result, left, offset, Int.natCast_add, ← Int.add_assoc, ← Int.add_assoc,
        copied_front (by omega), Nat.add_sub_cancel' size.2]
    · exact (between.wider (by omega) (by omega)).after (Int.le_refl _) (by dsimp only; omega)

/-! ## Moving -/

variable {curBlock : UInt64}

theorem moveBackLoop_ends {k turns : Nat} {n : UInt64} {store : Store} (back : src ≤ dest)
    (positive : 0 < curBlock.toNat ∨ k = 0) (enough : k < turns) (whole : n.toNat = k * curBlock.toNat) :
    ∃ ended, moveBackLoop dest src curBlock turns n store = some ended ∧
      ended.result = copied store dest src n.toNat ∧ ended.Between 0 n.toNat := by
  induction k generalizing turns n store with
  | zero =>
    obtain ⟨turns, rfl⟩ := Nat.exists_eq_add_one_of_ne_zero (Nat.ne_zero_of_lt enough)
    rw [Nat.zero_mul] at whole
    have zero : n = 0 := UInt64.toNat_inj.mp whole
    rw [moveBackLoop, if_pos zero, whole]
    exact ⟨_, rfl, copied_zero.symm, fun block member => absurd member List.not_mem_nil⟩
  | succ k ih =>
    obtain ⟨turns, rfl⟩ := Nat.exists_eq_add_one_of_ne_zero (Nat.ne_zero_of_lt enough)
    have size := positive.resolve_right (Nat.succ_ne_zero k)
    rw [Nat.succ_mul] at whole
    have more : n ≠ 0 := ne_zero_of_pos (by omega)
    have left : (n - curBlock).toNat = k * curBlock.toNat := by
      rw [UInt64.toNat_sub_of_le _ _ (UInt64.le_iff_toNat_le.mpr (by omega)), whole, Nat.add_sub_cancel]
    have offset : (n.toNat : Int) - curBlock.toNat = (k * curBlock.toNat : Nat) := by omega
    rw [moveBackLoop, if_neg more]
    simp only [offset, memmove]
    obtain ⟨ended, loop, result, between⟩ := @ih turns (n - curBlock)
      (copied store (dest + (k * curBlock.toNat : Nat)) (src + (k * curBlock.toNat : Nat)) curBlock.toNat) (.inl size)
      (by omega) left
    rw [loop]
    refine ⟨_, rfl, ?_, ?_⟩
    · rw [Ended.result_after, result, left, copied_back back, whole]
    · exact (between.wider (Int.le_refl _) (by omega)).after (by dsimp only; omega) (by dsimp only; omega)

theorem moveFrontLoop_ends {k turns : Nat} {curOffset n : UInt64} {store : Store} (front : dest ≤ src)
    (positive : 0 < curBlock.toNat ∨ k = 0) (enough : k < turns) (room : curOffset.toNat + n.toNat < 2 ^ 64)
    (whole : n.toNat = k * curBlock.toNat) :
    ∃ ended, moveFrontLoop dest src curBlock turns curOffset n store = some ended ∧
      ended.result = copied store (dest + curOffset.toNat) (src + curOffset.toNat) n.toNat ∧
      ended.Between curOffset.toNat (curOffset.toNat + n.toNat) := by
  induction k generalizing turns curOffset n store with
  | zero =>
    obtain ⟨turns, rfl⟩ := Nat.exists_eq_add_one_of_ne_zero (Nat.ne_zero_of_lt enough)
    rw [Nat.zero_mul] at whole
    have zero : n = 0 := UInt64.toNat_inj.mp whole
    rw [moveFrontLoop, if_pos zero, whole]
    exact ⟨_, rfl, copied_zero.symm, fun block member => absurd member List.not_mem_nil⟩
  | succ k ih =>
    obtain ⟨turns, rfl⟩ := Nat.exists_eq_add_one_of_ne_zero (Nat.ne_zero_of_lt enough)
    have size := positive.resolve_right (Nat.succ_ne_zero k)
    rw [Nat.succ_mul] at whole
    have more : n ≠ 0 := ne_zero_of_pos (by omega)
    have le : curBlock.toNat ≤ n.toNat := by omega
    obtain ⟨left, offset⟩ := next_words le room
    rw [moveFrontLoop, if_neg more]
    simp only [memmove]
    obtain ⟨ended, loop, result, between⟩ := @ih turns (curOffset + curBlock) (n - curBlock)
      (copied store (dest + curOffset.toNat) (src + curOffset.toNat) curBlock.toNat) (.inl size) (by omega) (by omega)
      (by omega)
    rw [loop]
    refine ⟨_, rfl, ?_, ?_⟩
    · rw [Ended.result_after, result, left, offset, Int.natCast_add, ← Int.add_assoc, ← Int.add_assoc,
        copied_front (by omega), Nat.add_sub_cancel' le]
    · exact (between.wider (by omega) (by omega)).after (Int.le_refl _) (by dsimp only; omega)

/-- Words go around in whole blocks, so that a part of one is never used up. -/
theorem part_kept {n : UInt64} (part : ¬blockSize.toNat ∣ n.toNat) :
    n ≠ 0 ∧ ¬blockSize.toNat ∣ (n - blockSize).toNat := by
  have size : blockSize.toNat = 65536 := by decide
  rw [size] at part ⊢
  constructor
  · rintro rfl
    exact part (Nat.dvd_zero _)
  · rw [UInt64.toNat_sub, size]
    have small := n.toNat_lt
    omega

theorem moveBackLoop_endless {n : UInt64} (part : ¬blockSize.toNat ∣ n.toNat) (store : Store) (turns : Nat) :
    moveBackLoop dest src blockSize turns n store = none := by
  induction turns generalizing n store with
  | zero => rfl
  | succ turns ih =>
    obtain ⟨more, later⟩ := part_kept part
    rw [moveBackLoop, if_neg more]
    simp only [ih later, Option.map_none]

theorem moveFrontLoop_endless {n : UInt64} (part : ¬blockSize.toNat ∣ n.toNat) (curOffset : UInt64) (store : Store)
    (turns : Nat) : moveFrontLoop dest src blockSize turns curOffset n store = none := by
  induction turns generalizing n curOffset store with
  | zero => rfl
  | succ turns ih =>
    obtain ⟨more, later⟩ := part_kept part
    rw [moveFrontLoop, if_neg more]
    simp only [ih later, Option.map_none]

end

/-! ## The calls -/

theorem toNat_blockSize : blockSize.toNat = 65536 := by decide

theorem firstBlock_whole {n : UInt64} (fits : InBlocks n) :
    ∃ k, n.toNat = k * (firstBlock n).toNat ∧ (0 < (firstBlock n).toNat ∨ k = 0) := by
  unfold firstBlock
  split
  case isTrue more =>
    have whole := fits.resolve_left fun le => UInt64.not_le.mpr more le
    refine ⟨n.toNat / blockSize.toNat, (Nat.div_mul_cancel whole).symm, .inl ?_⟩
    rw [toNat_blockSize]
    decide
  case isFalse =>
    by_cases none : n.toNat = 0
    · exact ⟨0, by omega, .inr rfl⟩
    · exact ⟨1, (Nat.one_mul _).symm, .inl (Nat.pos_of_ne_zero none)⟩

theorem firstBlock_part {n : UInt64} (part : ¬InBlocks n) :
    firstBlock n = blockSize ∧ ¬blockSize.toNat ∣ n.toNat := by
  rw [InBlocks, not_or, UInt64.not_le] at part
  exact ⟨if_pos part.1, part.2⟩

theorem offset_zero (address : Int) : address + ((0 : UInt64).toNat : Int) = address := Int.add_zero address

section
variable (store : Store) (n : UInt64)

theorem memcmp64_standard_iff (s1 s2 : Int) :
    (Call.memcmp64 s1 s2 n).Standard store ↔ (Call.memcmp64 s1 s2 n).Fits store := by
  have room : (0 : UInt64).toNat + n.toNat < 2 ^ 64 := by
    rw [UInt64.toNat_zero, Nat.zero_add]
    exact n.toNat_lt
  have start := offset_zero
  have blocks : n.toNat = wholeBlocks n + n.toNat % blockSize.toNat := by
    rw [wholeBlocks, Nat.mul_comm]
    exact (Nat.div_add_mod _ _).symm
  constructor
  · rintro ⟨turns, ended, call, -, inside⟩
    apply Classical.or_iff_not_imp_left.mpr
    intro part same
    obtain ⟨size, rest⟩ := firstBlock_part part
    rw [memcmp64, size] at call
    have some : 0 < n.toNat % blockSize.toNat := Nat.pos_of_ne_zero fun zero => rest (Nat.dvd_of_mod_eq_zero zero)
    have less : n.toNat % blockSize.toNat < blockSize.toNat := Nat.mod_lt _ (by rw [toNat_blockSize]; decide)
    refine memcmpLoop_outside call room blocks some less (by rwa [start, start]) ?_
    rwa [UInt64.toNat_zero, Int.natCast_zero, Int.zero_add]
  · intro fits
    by_cases whole : InBlocks n
    · obtain ⟨k, same, positive⟩ := firstBlock_whole whole
      obtain ⟨ended, loop, result, between⟩ :=
        @memcmpLoop_ends store s1 s2 _ k _ 0 n positive (Nat.lt_succ_self k) room (.inl same)
      rw [start, start, ← same] at result
      refine ⟨k + 1, ended, loop, congrArg Int.sign result, between.wider (Int.le_refl _) ?_⟩
      rw [← same, UInt64.toNat_zero, Int.natCast_zero, Int.zero_add]
    · -- the comparison is over before the part of a block
      have differs := fits.resolve_left whole
      obtain ⟨size, -⟩ := firstBlock_part whole
      have positive : 0 < blockSize.toNat ∨ n.toNat / blockSize.toNat = 0 := .inl (by rw [toNat_blockSize]; decide)
      obtain ⟨ended, loop, result, between⟩ := @memcmpLoop_ends store s1 s2 _ _ _ 0 n positive (Nat.lt_succ_self _)
        room (.inr ⟨Nat.div_mul_le_self _ _, by rwa [start, start]⟩)
      refine ⟨n.toNat / blockSize.toNat + 1, ended, ?_, ?_, between.wider (Int.le_refl _) ?_⟩
      · rw [memcmp64, size]
        exact loop
      · have front := compared_of_differs (fun one other : UInt8 => (one.toNat : Int) - other.toNat)
          (n.toNat % blockSize.toNat) differs
        rw [← blocks] at front
        rw [result, start, start]
        exact congrArg Int.sign front.symm
      · have le := Nat.div_mul_le_self n.toNat blockSize.toNat
        rw [UInt64.toNat_zero]
        omega

theorem memcpy64_standard (dest src : Int) : (Call.memcpy64 dest src n).Standard store := by
  intro expected allowed
  rw [memcpy] at allowed
  split at allowed
  case isFalse => cases allowed
  case isTrue apart =>
    obtain rfl := Option.some.inj allowed
    have zero : (0 : UInt64).toNat + n.toNat = n.toNat := by rw [UInt64.toNat_zero, Nat.zero_add]
    obtain ⟨ended, loop, result, between⟩ := memcpyLoop_ends (Nat.lt_succ_self n.toNat)
      (by rw [zero]; exact n.toNat_lt) (by rwa [zero])
    refine ⟨_, _, by rw [memcpy64, loop, Option.map_some], ?_, ?_⟩
    · simp only [result, offset_zero]
    · intro block member
      have bounds := between block member
      rw [UInt64.toNat_zero] at bounds
      omega

theorem memmove64_standard_iff (dest src : Int) :
    (Call.memmove64 dest src n).Standard store ↔ (Call.memmove64 dest src n).Fits store := by
  constructor
  · rintro ⟨turns, ended, call, -, -⟩
    apply Classical.or_iff_not_imp_left.mpr
    intro part
    obtain ⟨size, rest⟩ := firstBlock_part part
    by_contra apart
    rw [memmove64, size, moveBackLoop_endless rest, moveFrontLoop_endless rest] at call
    split at call
    case isTrue => cases call
    case isFalse back =>
      rw [if_pos (by omega)] at call
      cases call
  · intro fits
    rw [Call.Standard, memmove]
    by_cases same : dest = src
    · subst same
      refine ⟨0, ⟨(dest, store), []⟩, ?_, ?_, fun block member => absurd member List.not_mem_nil⟩
      · rw [memmove64, if_neg (Int.lt_irrefl _), if_neg (Int.lt_irrefl _)]
        rfl
      · rw [copied_self]
    obtain ⟨k, whole, positive⟩ := firstBlock_whole (fits.resolve_right same)
    by_cases back : src < dest
    · obtain ⟨ended, loop, result, between⟩ :=
        @moveBackLoop_ends dest src _ k _ n store (Int.le_of_lt back) positive (Nat.lt_succ_self k) whole
      refine ⟨k + 1, ⟨(dest, ended.result), ended.blocks⟩, ?_, ?_, fun block member => between block member⟩
      · rw [memmove64, if_pos back, loop]
        rfl
      · rw [result]
    · have front : dest < src := by omega
      have room : (0 : UInt64).toNat + n.toNat < 2 ^ 64 := by
        rw [UInt64.toNat_zero, Nat.zero_add]
        exact n.toNat_lt
      obtain ⟨ended, loop, result, between⟩ :=
        @moveFrontLoop_ends dest src _ k _ 0 n store (Int.le_of_lt front) positive (Nat.lt_succ_self k) room whole
      refine ⟨k + 1, ⟨(dest, ended.result), ended.blocks⟩, ?_, ?_, ?_⟩
      · rw [memmove64, if_neg back, if_pos front, loop]
        rfl
      · simp only [result, offset_zero]
      · intro block member
        have bounds := between block member
        rw [UInt64.toNat_zero] at bounds
        omega

/-- The calls that do what the C library does. -/
theorem standard_iff_fits (call : Call) : call.Standard store ↔ call.Fits store := by
  cases call with
  | memcmp64 s1 s2 n => exact memcmp64_standard_iff store n s1 s2
  | memcpy64 dest src n => exact iff_of_true (memcpy64_standard store n dest src) trivial
  | memmove64 dest src n => exact memmove64_standard_iff store n dest src

/-- One byte more than a block is moved one byte further without an end. -/
theorem not_standard : ¬∀ (store : Store) (call : Call), call.Standard store := by
  intro claim
  rcases (memmove64_standard_iff (fun _ => 0) 65537 1 0).mp (claim _ _) with (small | whole) | same
  · exact absurd small (by decide)
  · exact absurd whole (by decide)
  · exact absurd same (by decide)

end

end Mantids.Helpers.Mem
