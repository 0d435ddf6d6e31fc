import Mantids.Network.StreamBase

/-! A block up to a delimiter (`Socket_StreamBaseReader::readBlock32WAllocAndDelim`), in memory that is allocated as
the reading goes on. -/

set_option autoImplicit false

namespace Mantids.Network

open Memory

/-- What `readU8` answers, call after call. -/
abbrev ByteStream := Nat → Option UInt8

/-- `delimBytes` is of sixteen bits. -/
structure Delimiter where
  bytes : Bytes
  some : bytes ≠ []
  short : bytes.length ≤ 65535

/-- Memory in which a byte may not have been written yet. -/
abbrev Cells := List (Option UInt8)

/-- Nothing where the comparison leaves the memory, or meets a byte that was not written. -/
def memcmp (block : Cells) (point : Int) (delim : Bytes) : Option Bool :=
  if 0 ≤ point ∧ point.toNat + delim.length ≤ block.length then
    let cells := (block.drop point.toNat).take delim.length
    if none ∈ cells then none else some (decide (cells = delim.map some))
  else none

/-- The codes of `read64KBlockDelim`: a position, -1 and -2. -/
inductive BlockSearch where
  | found (pos : Nat)
  | notFound
  | readError
  | fault
  deriving DecidableEq

/-- A copy past the end of the new block is a fault, as a comparison of bytes that are not there. -/
inductive BlockRead where
  | block (currentBlock : Cells) (datalen calls : Nat)
  | null
  | fault
  | expired

section
variable (stream : ByteStream) (delim : Delimiter)

/-- The turns from a position on, with the calls of `readU8` until then. -/
def read64KTurns (offset blockNo : Nat) : (turns pos calls : Nat) → Cells → BlockSearch × Cells × Nat
  | 0, _, calls, block => (.notFound, block, calls)
  | turns + 1, pos, calls, block =>
    match stream calls with
    | none => (.readError, block, calls + 1)
    | some byte =>
      let block := block.set (offset + (pos - 1)) (some byte)
      if (blockNo = 0 ∧ delim.bytes.length ≤ pos) ∨ 0 < blockNo then
        match memcmp block (((offset + (pos - 1) : Nat) : Int) - (delim.bytes.length - 1 : Nat)) delim.bytes with
        | none => (.fault, block, calls + 1)
        | some true => (.found pos, block, calls + 1)
        | some false => read64KTurns offset blockNo turns (pos + 1) (calls + 1) block
      else read64KTurns offset blockNo turns (pos + 1) (calls + 1) block

def read64KBlockDelim (offset blockNo calls : Nat) (block : Cells) : BlockSearch × Cells × Nat :=
  read64KTurns stream delim offset blockNo 65536 1 calls block

/-- `unsigned int`. -/
def uint (value : Nat) : Nat := value % 2 ^ 32

/-- The turns of the loop; the sums are of `unsigned int`. -/
def readBlockTurns (limit : UInt32) : (turns blockNo currentBlockSize calls : Nat) → Cells → BlockRead
  | 0, _, _, _, _ => .expired
  | turns + 1, blockNo, currentBlockSize, calls, currentBlock =>
    match read64KBlockDelim stream delim (currentBlockSize - 65536) blockNo calls currentBlock with
    | (.readError, _, _) => .null
    | (.fault, _, _) => .fault
    | (.found bytesRecv, block, calls) => .block block (uint (uint (currentBlockSize - 65536) + bytesRecv)) calls
    | (.notFound, block, calls) =>
      if limit.toNat < uint (currentBlockSize + 65536) then .null
      else
        let size := uint (currentBlockSize + 65536)
        if size < currentBlockSize then .fault
        else readBlockTurns limit turns (uint (blockNo + 1)) size calls
          (block.take currentBlockSize ++ List.replicate (size - currentBlockSize) none)

def readBlock32WAllocAndDelim (limit : UInt32) : BlockRead :=
  if limit.toNat ≤ 65535 then .null
  else readBlockTurns stream delim limit 65536 0 65536 0 (List.replicate 65536 none)

end

/-! ## What was read -/

/-- The first answers of a stream. -/
def ByteStream.front (stream : ByteStream) (count : Nat) : Cells := (List.range count).map stream

section
variable (stream : ByteStream) (delim : Delimiter)

/-- A prefix of the stream ends in the delimiter. -/
def EndsAt (count : Nat) : Prop := delim.bytes.map some <:+ stream.front count

instance (count : Nat) : Decidable (EndsAt stream delim count) := inferInstanceAs (Decidable (_ <:+ _))

/-- The stream has that many bytes. -/
def Gives (count : Nat) : Prop := ∀ call < count, stream call ≠ none

/-- The delimiter is nowhere in the bytes that were read. -/
structure Searched (count : Nat) : Prop where
  given : Gives stream count
  nowhere : ∀ length ≤ count, ¬EndsAt stream delim length

variable {stream delim}

@[simp] theorem length_front (count : Nat) : (stream.front count).length = count := by
  simp only [ByteStream.front, List.length_map, List.length_range]

theorem front_succ (count : Nat) : stream.front (count + 1) = stream.front count ++ [stream count] := by
  simp only [ByteStream.front, List.range_succ, List.map_append, List.map_cons, List.map_nil]

theorem none_not_mem_front {count : Nat} (given : Gives stream count) : none ∉ stream.front count := by
  simp only [ByteStream.front, List.mem_map, List.mem_range, not_exists, not_and]
  exact given

theorem not_endsAt_of_lt {count : Nat} (short : count < delim.bytes.length) : ¬EndsAt stream delim count := by
  intro ends
  have length := ends.length_le
  simp only [List.length_map, length_front] at length
  omega

theorem Gives.succ {count : Nat} (given : Gives stream count) {byte : UInt8} (answer : stream count = some byte) :
    Gives stream (count + 1) := by
  intro call before
  obtain earlier | rfl := Nat.lt_succ_iff_lt_or_eq.mp before
  · exact given call earlier
  · simp only [answer, ne_eq, reduceCtorEq, not_false_iff]

theorem Searched.succ {count : Nat} (searched : Searched stream delim count) (given : Gives stream (count + 1))
    (here : ¬EndsAt stream delim (count + 1)) : Searched stream delim (count + 1) := by
  refine ⟨given, fun length within => ?_⟩
  obtain rfl | before := within.eq_or_lt
  · exact here
  · exact searched.nowhere length (by omega)

theorem Searched.mono {count fewer : Nat} (searched : Searched stream delim count) (within : fewer ≤ count) :
    Searched stream delim fewer :=
  ⟨fun call before => searched.given call (by omega), fun length before => searched.nowhere length (by omega)⟩

theorem searched_zero : Searched stream delim 0 := by
  refine ⟨fun call before => absurd before (Nat.not_lt_zero call), fun length within => ?_⟩
  have positive := List.length_pos_of_ne_nil delim.some
  exact not_endsAt_of_lt (by omega)

/-- The next byte goes behind those that were read. -/
theorem set_front (count room : Nat) :
    (stream.front count ++ List.replicate (room + 1) none).set count (stream count) =
      stream.front (count + 1) ++ List.replicate room none := by
  rw [List.set_append_right _ _ (by rw [length_front]), length_front, Nat.sub_self, List.replicate_succ,
    List.set_cons_zero, front_succ, List.append_assoc, List.singleton_append]

/-- The comparison stays in what was read. -/
theorem memcmp_front {count : Nat} (given : Gives stream count) (long : delim.bytes.length ≤ count) (room : Nat) :
    memcmp (stream.front count ++ List.replicate room none) ((count - delim.bytes.length : Nat) : Int) delim.bytes =
      some (decide (EndsAt stream delim count)) := by
  have window : ((stream.front count ++ List.replicate room none).drop (count - delim.bytes.length)).take
      delim.bytes.length = (stream.front count).drop (count - delim.bytes.length) := by
    rw [List.drop_append_of_le_length (by rw [length_front]; omega)]
    apply List.take_left'
    rw [List.length_drop, length_front]
    omega
  have written : none ∉ (stream.front count).drop (count - delim.bytes.length) := by
    intro member
    exact none_not_mem_front given (List.mem_of_mem_drop member)
  have ends : EndsAt stream delim count ↔
      (stream.front count).drop (count - delim.bytes.length) = delim.bytes.map some := by
    rw [EndsAt, List.suffix_iff_eq_drop, length_front, List.length_map, eq_comm]
  have inside : (count - delim.bytes.length) + delim.bytes.length ≤
      (stream.front count ++ List.replicate room none).length := by
    rw [List.length_append, length_front]
    omega
  simp only [memcmp, Int.natCast_nonneg, Int.toNat_natCast, inside, and_self, if_true, window, written, if_false, ends]

/-! ## One block of 64K -/

/-- The delimiter comes with the byte at the end of what was read, and not before. -/
structure Shortest (stream : ByteStream) (delim : Delimiter) (count : Nat) : Prop where
  given : Gives stream count
  ends : EndsAt stream delim count
  first : ∀ length < count, ¬EndsAt stream delim length

/-- What the reading of a block finds behind the bytes at its offset. -/
inductive Scanned (stream : ByteStream) (delim : Delimiter) (offset : Nat) : BlockSearch × Cells × Nat → Prop where
  | found (pos room : Nat) (within : pos ≤ 65536) (shortest : Shortest stream delim (offset + pos)) :
      Scanned stream delim offset
        (.found pos, stream.front (offset + pos) ++ List.replicate room none, offset + pos)
  | notFound (room : Nat) (searched : Searched stream delim (offset + 65536)) :
      Scanned stream delim offset
        (.notFound, stream.front (offset + 65536) ++ List.replicate room none, offset + 65536)
  | readError (block : Cells) (count : Nat) (within : count < offset + 65536) (gone : stream count = none) :
      Scanned stream delim offset (.readError, block, count + 1)

theorem scanned_turns {offset blockNo : Nat} (later : blockNo ≠ 0 → 65536 ≤ offset)
    (first : blockNo = 0 → offset = 0) :
    ∀ turns pos, pos + turns = 65536 → Searched stream delim (offset + pos) →
      Scanned stream delim offset (read64KTurns stream delim offset blockNo turns (pos + 1) (offset + pos)
        (stream.front (offset + pos) ++ List.replicate turns none)) := by
  have short := delim.short
  have positive := List.length_pos_of_ne_nil delim.some
  intro turns
  induction turns with
  | zero =>
    intro pos full searched
    obtain rfl : pos = 65536 := by omega
    exact .notFound 0 searched
  | succ turns ih =>
    intro pos full searched
    cases answer : stream (offset + pos) with
    | none =>
      simp only [read64KTurns, answer]
      exact .readError _ _ (by omega) answer
    | some byte =>
      have given := searched.given.succ answer
      have written := @set_front stream (offset + pos) turns
      rw [answer] at written
      -- the turn that follows one without a match
      have next (here : ¬EndsAt stream delim (offset + pos + 1)) := ih (pos + 1) (by omega) (searched.succ given here)
      simp only [← Nat.add_assoc] at next
      simp only [read64KTurns, answer, Nat.add_sub_cancel, written]
      split
      case isTrue compared =>
        have long : delim.bytes.length ≤ offset + pos + 1 := by omega
        have point : ((offset + pos : Nat) : Int) - (delim.bytes.length - 1 : Nat) =
            ((offset + pos + 1 - delim.bytes.length : Nat) : Int) := by
          omega
        rw [point, memcmp_front given long]
        by_cases here : EndsAt stream delim (offset + pos + 1)
        · simp only [here, decide_true]
          exact .found (pos + 1) turns (by omega)
            ⟨given, here, fun length before => searched.nowhere length (by omega)⟩
        · simp only [here, decide_false]
          exact next here
      case isFalse uncompared =>
        -- less than the delimiter was read
        obtain rfl : blockNo = 0 := by omega
        have start := first rfl
        exact next (not_endsAt_of_lt (by omega))

theorem scanned_block {offset blockNo : Nat} (later : blockNo ≠ 0 → 65536 ≤ offset)
    (first : blockNo = 0 → offset = 0) (searched : Searched stream delim offset) :
    Scanned stream delim offset (read64KBlockDelim stream delim offset blockNo offset
      (stream.front offset ++ List.replicate 65536 none)) :=
  scanned_turns later first 65536 0 rfl searched

end

/-! ## The block -/

/-- A block that is returned begins with the shortest prefix of the stream that ends in the delimiter, and no more than
that is taken from the stream. -/
inductive BlockRead.Right (stream : ByteStream) (delim : Delimiter) (limit : UInt32) : BlockRead → Prop where
  | null : Right stream delim limit .null
  | block (bytes : Bytes) (rest : Cells) (front : stream.front bytes.length = bytes.map some)
      (ends : delim.bytes <:+ bytes) (shortest : ∀ length < bytes.length, ¬EndsAt stream delim length)
      (within : bytes.length ≤ limit.toNat) :
      Right stream delim limit (.block (bytes.map some ++ rest) bytes.length bytes.length)

section
variable {stream : ByteStream} {delim : Delimiter} {limit : UInt32}

theorem exists_bytes {count : Nat} (given : Gives stream count) :
    ∃ bytes : Bytes, bytes.length = count ∧ stream.front count = bytes.map some := by
  induction count with
  | zero => exact ⟨[], rfl, rfl⟩
  | succ count ih =>
    obtain ⟨bytes, length, same⟩ := ih fun call before => given call (by omega)
    obtain ⟨byte, answer⟩ := Option.ne_none_iff_exists'.mp (given count (Nat.lt_succ_self count))
    exact ⟨bytes ++ [byte], by rw [List.length_append, length, List.length_singleton],
      by rw [front_succ, same, answer, List.map_append, List.map_cons, List.map_nil]⟩

theorem right_of_shortest {count : Nat} (shortest : Shortest stream delim count) (within : count ≤ limit.toNat)
    (rest : Cells) : (BlockRead.block (stream.front count ++ rest) count count).Right stream delim limit := by
  obtain ⟨bytes, rfl, same⟩ := exists_bytes shortest.given
  have ends : delim.bytes.map some <:+ bytes.map some := same ▸ shortest.ends
  rw [same]
  refine .block bytes rest same ?_ shortest.first within
  rw [List.suffix_iff_eq_drop, List.length_map, List.length_map, ← List.map_drop] at ends
  rw [List.suffix_iff_eq_drop]
  exact List.map_injective_iff.mpr (Option.some_injective UInt8) ends

/-- The bytes that were read go to the front of the new memory. -/
theorem copied_front (blockNo room : Nat) :
    (stream.front (65536 * blockNo + 65536) ++ List.replicate room none).take (65536 * (blockNo + 1)) =
      stream.front (65536 * (blockNo + 1)) := by
  rw [Nat.mul_succ]
  exact List.take_left' (length_front _)

/-- A turn starts with the blocks before it full. -/
def turn (stream : ByteStream) (delim : Delimiter) (limit : UInt32) (turns blockNo : Nat) : BlockRead :=
  readBlockTurns stream delim limit turns blockNo (65536 * (blockNo + 1)) (65536 * blockNo)
    (stream.front (65536 * blockNo) ++ List.replicate 65536 none)

theorem turn_scanned (blockNo : Nat) (searched : Searched stream delim (65536 * blockNo)) :
    Scanned stream delim (65536 * blockNo)
      (read64KBlockDelim stream delim (65536 * (blockNo + 1) - 65536) blockNo (65536 * blockNo)
        (stream.front (65536 * blockNo) ++ List.replicate 65536 none)) := by
  rw [Nat.mul_succ, Nat.add_sub_cancel]
  exact scanned_block (by omega) (by omega) searched

/-- A new block of 64K, as long as its size is below the border of `unsigned int`. -/
theorem turn_grows {turns blockNo room : Nat} (small : 65536 * (blockNo + 1) + 65536 < 2 ^ 32)
    (enough : 65536 * (blockNo + 1) + 65536 ≤ limit.toNat)
    (found : read64KBlockDelim stream delim (65536 * (blockNo + 1) - 65536) blockNo (65536 * blockNo)
        (stream.front (65536 * blockNo) ++ List.replicate 65536 none) =
      (.notFound, stream.front (65536 * blockNo + 65536) ++ List.replicate room none, 65536 * blockNo + 65536)) :
    turn stream delim limit (turns + 1) blockNo = turn stream delim limit turns (blockNo + 1) := by
  have size : uint (65536 * (blockNo + 1) + 65536) = 65536 * (blockNo + 1 + 1) := Nat.mod_eq_of_lt small
  have number : uint (blockNo + 1) = blockNo + 1 := Nat.mod_eq_of_lt (by omega)
  have fits : ¬limit.toNat < 65536 * (blockNo + 1 + 1) := by omega
  have larger : ¬65536 * (blockNo + 1 + 1) < 65536 * (blockNo + 1) := by omega
  have added : 65536 * (blockNo + 1 + 1) - 65536 * (blockNo + 1) = 65536 := by omega
  simp only [turn, readBlockTurns, found, size, number, fits, larger, if_false, copied_front, added]
  rw [Nat.mul_succ 65536 blockNo]

theorem right_turn (fine : ¬(2 ^ 32 - 65536 ≤ limit.toNat ∧ Searched stream delim (2 ^ 32 - 65536))) :
    ∀ turns blockNo, 65535 ≤ turns + blockNo → 65536 * (blockNo + 1) ≤ limit.toNat →
      Searched stream delim (65536 * blockNo) → (turn stream delim limit turns blockNo).Right stream delim limit := by
  have bound := limit.toNat_lt
  intro turns
  induction turns with
  | zero =>
    intro blockNo enough room
    omega
  | succ turns ih =>
    intro blockNo enough room searched
    generalize same : read64KBlockDelim stream delim (65536 * (blockNo + 1) - 65536) blockNo (65536 * blockNo)
      (stream.front (65536 * blockNo) ++ List.replicate 65536 none) = result
    have scanned := same ▸ turn_scanned blockNo searched
    cases scanned with
    | readError block count within gone =>
      simp only [turn, readBlockTurns, same]
      exact .null
    | found pos unused within shortest =>
      have length : uint (uint (65536 * (blockNo + 1) - 65536) + pos) = 65536 * blockNo + pos := by
        unfold uint
        omega
      simp only [turn, readBlockTurns, same, length]
      exact right_of_shortest shortest (by omega) _
    | notFound unused searched =>
      by_cases last : limit.toNat < 65536 * (blockNo + 1) + 65536
      · -- the sum would pass the border only where the whole limit was searched
        have small : 65536 * (blockNo + 1) + 65536 < 2 ^ 32 := by
          by_contra border
          exact fine ⟨by omega, searched.mono (by omega)⟩
        have size : uint (65536 * (blockNo + 1) + 65536) = 65536 * (blockNo + 1) + 65536 := Nat.mod_eq_of_lt small
        simp only [turn, readBlockTurns, same, size, last, if_true]
        exact .null
      · rw [turn_grows (by omega) (by omega) same]
        exact ih (blockNo + 1) (by omega) (by omega) searched

/-- Where the bytes of the whole limit are searched in vain, the last sum is zero: the new memory is too small. -/
theorem fault_turn (high : 2 ^ 32 - 65536 ≤ limit.toNat) (vain : Searched stream delim (2 ^ 32 - 65536)) :
    ∀ turns blockNo, 65535 ≤ turns + blockNo → blockNo < 65535 → turn stream delim limit turns blockNo = .fault := by
  have bound := limit.toNat_lt
  intro turns
  induction turns with
  | zero =>
    intro blockNo enough before
    omega
  | succ turns ih =>
    intro blockNo enough before
    generalize same : read64KBlockDelim stream delim (65536 * (blockNo + 1) - 65536) blockNo (65536 * blockNo)
      (stream.front (65536 * blockNo) ++ List.replicate 65536 none) = result
    have scanned := same ▸ turn_scanned blockNo (vain.mono (by omega))
    cases scanned with
    | readError block count within gone => exact absurd gone (vain.given count (by omega))
    | found pos unused within shortest => exact absurd shortest.ends (vain.nowhere _ (by omega))
    | notFound unused searched =>
      by_cases last : blockNo = 65534
      · subst last
        have size : uint (65536 * (65534 + 1) + 65536) = 0 := rfl
        simp only [turn, readBlockTurns, same, size, Nat.not_lt_zero, if_false]
        rfl
      · rw [turn_grows (by omega) (by omega) same]
        exact ih (blockNo + 1) (by omega) (by omega)

/-- The limits near the border fault on a stream that fills them without the delimiter. -/
theorem readBlock_fault (high : 2 ^ 32 - 65536 ≤ limit.toNat) (vain : Searched stream delim (2 ^ 32 - 65536)) :
    readBlock32WAllocAndDelim stream delim limit = .fault := by
  have large : ¬limit.toNat ≤ 65535 := by omega
  rw [readBlock32WAllocAndDelim, if_neg large]
  exact fault_turn high vain 65536 0 (by omega) (by omega)

end

/-- For every stream, delimiter and limit, the reading is right but where the size of the memory passes 32 bits. -/
theorem readBlock_right_iff (stream : ByteStream) (delim : Delimiter) (limit : UInt32) :
    (readBlock32WAllocAndDelim stream delim limit).Right stream delim limit ↔
      ¬(2 ^ 32 - 65536 ≤ limit.toNat ∧ Gives stream (2 ^ 32 - 65536) ∧
        ∀ length ≤ 2 ^ 32 - 65536, ¬EndsAt stream delim length) := by
  constructor
  · rintro right ⟨high, given, nowhere⟩
    rw [readBlock_fault high ⟨given, nowhere⟩] at right
    cases right
  · intro fine
    have unsearched : ¬(2 ^ 32 - 65536 ≤ limit.toNat ∧ Searched stream delim (2 ^ 32 - 65536)) := by
      rintro ⟨high, vain⟩
      exact fine ⟨high, vain.given, vain.nowhere⟩
    unfold readBlock32WAllocAndDelim
    split
    case isTrue => exact .null
    case isFalse large => exact right_turn unsearched 65536 0 (by omega) (by omega) searched_zero

/-- Zeros without an end, and a delimiter of another byte. -/
theorem zeros_fault :
    ¬(readBlock32WAllocAndDelim (fun _ => some 0) ⟨[10], by decide, by decide⟩ 4294967295).Right (fun _ => some 0)
      ⟨[10], by decide, by decide⟩ 4294967295 := by
  have vain : Searched (fun _ => some 0) ⟨[10], by decide, by decide⟩ (2 ^ 32 - 65536) := by
    constructor
    · intro call before
      simp
    · intro length within ends
      have member : some 10 ∈ ByteStream.front (fun _ => some 0) length := ends.subset (by simp)
      simp [ByteStream.front] at member
  rw [readBlock_fault (by decide) vain]
  intro right
  cases right

end Mantids.Network
