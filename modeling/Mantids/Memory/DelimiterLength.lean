import Mantids.Memory.DirectDelimiter

/-! Which delimiters are safe in every split: with one or two bytes the offsets of the
buffer stay right, with three there are splits in which the comparisons look elsewhere. -/

set_option autoImplicit false

namespace Mantids.Memory.Streams

theorem append_byte {c : BChunks} (limits : c.limits = Limits.default) (few : c.chunksVector.length < 2 ^ 18)
    (small : c.containerBytes + 1 < 2 ^ 64) (b : UInt8) : (c.append [b]).2 = BChunks.insertChunk false c [b] := by
  have sum : overflowSum 1 c.containerBytes = false := decide_eq_false (by omega)
  have room : ∃ room, c.limits.maxChunks - c.chunksVector.length = room + 1 := by
    refine ⟨c.limits.maxChunks - c.chunksVector.length - 1, ?_⟩
    have maxChunks : c.limits.maxChunks = 2 ^ 18 := by rw [limits]; rfl
    omega
  obtain ⟨room, left⟩ := room
  have maxSize : c.limits.maxSize = 2 ^ 64 - 1 := by rw [limits]; rfl
  have maxChunkSize : c.limits.maxChunkSize = 2 ^ 16 := by rw [limits]; rfl
  simp only [BChunks.append, BChunks.insert, BChunks.append2, BChunks.size, List.length_singleton, sum,
    Bool.false_eq_true, if_false, left]
  rw [if_neg (by omega), if_neg (by simp)]
  simp [BChunks.insertLoop, maxChunkSize]

/-- A sub parser with these chunks in its buffer. -/
def waitingFor (delimiter : Bytes) (chunksVector : List BinaryContainerChunk) (containerBytes : Nat) : SubParser :=
  { SubParser.new (untilDelimiter delimiter) with unparsedBuffer := ⟨chunksVector, containerBytes, .default⟩ }

theorem lastBytesMatch_copied {p : SubParser} {fresh : Fresh} {boundary : Bytes} (copied : Bytes) {v : Nat}
    (copies : p.unparsedBuffer.copyOut v (p.unparsedBuffer.size - v) = some copied) (whole : copied.length = v) :
    p.lastBytesMatch fresh boundary v = decide (copied = boundary.take v) := by
  have nothing : (fresh v).toList.drop copied.length = [] := by
    rw [List.drop_eq_nil_iff, Vector.length_toList, whole]
  rw [SubParser.lastBytesMatch, copies, Option.getD_some, nothing, List.append_nil]

theorem lastBytesMatch_missed {p : SubParser} {fresh : Fresh} {boundary : Bytes} {v : Nat}
    (misses : p.unparsedBuffer.copyOut v (p.unparsedBuffer.size - v) = none) :
    p.lastBytesMatch fresh boundary v = decide ((fresh v).toList = boundary.take v) := by
  rw [SubParser.lastBytesMatch, misses, Option.getD_none, List.nil_append, List.length_nil, List.drop_zero]

theorem grown_byte (delimiter : Bytes) (chunksVector : List BinaryContainerChunk) {containerBytes : Nat}
    (few : chunksVector.length < 2 ^ 18) (small : containerBytes + 1 < 2 ^ 64) (b : UInt8) :
    grown (waitingFor delimiter chunksVector containerBytes) [b] =
      waitingFor delimiter (chunksVector ++ [⟨[b], BChunks.nextFreeOffset chunksVector⟩]) (containerBytes + 1) := by
  have appends : ((waitingFor delimiter chunksVector containerBytes).unparsedBuffer.append [b]).2 =
      BChunks.insertChunk false ⟨chunksVector, containerBytes, .default⟩ [b] := append_byte rfl few small b
  unfold grown
  rw [appends]
  simp only [waitingFor, BChunks.insertChunk, BChunks.incContainerBytesCount, List.length_singleton,
    Nat.mod_eq_of_lt small, Bool.false_eq_true, if_false]

theorem held_eq {delimiter : Bytes} {p : SubParser} (holding : Holding delimiter p) {buf : Bytes}
    (fits : Fits delimiter buf) (filled : buf ≠ []) {fresh : Fresh} {v : Nat} (some : 0 < v)
    (keeps : KeepsBack fresh p buf v) (most : ¬KeepsBack fresh p buf (v + 1)) : held fresh p buf = v := by
  obtain ⟨-, -, back⟩ := held_spec holding fits filled (fun _ => fresh) 0
  have least := (back v some).mpr keeps
  have bound := mt (back (v + 1) (Nat.zero_lt_succ v)).mp most
  omega

/-! ## Right offsets -/

section
variable {delimiter : Bytes} {p : SubParser} (holding : Holding delimiter p) {buf : Bytes} (fits : Fits delimiter buf)
  (filled : buf ≠ [])
include holding fits filled

/-- Right offsets show what has come of the delimiter. -/
theorem keepsBack_of_coherent (coherent : (grown p buf).unparsedBuffer.Coherent) (fresh : Fresh) {later : Bytes}
    {m begun : Nat} (first : Library.occurrence delimiter (p.pending ++ buf ++ later) = some m) (some : 0 < begun)
    (less : begun < delimiter.length) (position : (p.pending ++ buf).length = m + begun) :
    KeepsBack fresh p buf begun := by
  have size := size_grown holding fits filled
  have pending := pending_grown holding fits filled
  obtain ⟨-, starts, -⟩ := Library.occurrence_eq_some_iff.mp first
  have rest : (p.pending ++ buf ++ later).drop m = (p.pending ++ buf).drop m ++ later :=
    List.drop_append_of_le_length (by omega)
  have length : ((p.pending ++ buf).drop m).length = begun := by
    rw [List.length_drop]
    omega
  have same : (p.pending ++ buf).drop m = delimiter.take begun := by
    rw [rest] at starts
    have front := List.prefix_of_prefix_length_le (List.prefix_append _ later) starts (by omega)
    rw [List.prefix_iff_eq_take.mp front, length]
  have copies : (grown p buf).unparsedBuffer.copyOut begun ((grown p buf).unparsedBuffer.size - begun) =
      .some (delimiter.take begun) := by
    rw [BChunks.copyOut_eq coherent (by omega) (by omega), size, position, Nat.add_sub_cancel]
    show Option.some (((grown p buf).pending.drop m).take begun) = _
    rw [pending, same, List.take_take, Nat.min_self]
  refine ⟨begun, Nat.le_refl _, ?_, by omega, ?_⟩
  · rw [holding.searched]
    exact less
  · rw [holding.searched, lastBytesMatch_copied _ copies]
    · simp
    · rw [← same, length]

omit fits filled in
theorem coherent_grown (coherent : p.unparsedBuffer.Coherent) : (grown p buf).unparsedBuffer.Coherent := by
  apply (BChunks.append_coherent_iff coherent buf).mpr
  intro _ _
  rw [holding.limits]
  decide

/-- What is kept of at most one byte lies in one chunk. -/
theorem coherent_keeping (coherent : p.unparsedBuffer.Coherent) (sized : p.unparsedBuffer.Sized)
    (short : delimiter.length ≤ 2) (memory : Nat → Fresh) (calls : Nat) :
    (keeping (memory calls) p buf).unparsedBuffer.Coherent ∧ (keeping (memory calls) p buf).unparsedBuffer.Sized := by
  have grows : (grown p buf).unparsedBuffer.Coherent := coherent_grown holding coherent
  have size : (grown p buf).unparsedBuffer.Sized := sized.insert false buf
  obtain ⟨proper, inside, -⟩ := held_spec holding fits filled memory calls
  unfold keeping
  split
  · exact ⟨BChunks.coherent_of_empty rfl rfl, BChunks.sized_empty _⟩
  · refine ⟨(BChunks.displace_coherent_iff grows size _).mpr ?_, size.displace grows _⟩
    intro last found
    have some := grows.nonempty last (List.mem_of_mem_getLast? found)
    omega

end

theorem exactFrom_of_short {memory : Nat → Fresh} {delimiter : Bytes} (short : delimiter.length ≤ 2) {p : SubParser}
    (holding : Holding delimiter p) (coherent : p.unparsedBuffer.Coherent) (sized : p.unparsedBuffer.Sized) (calls : Nat)
    {writes : List Bytes} (filled : ∀ buf ∈ writes, buf ≠ []) (fits : ∀ buf ∈ writes, Fits delimiter buf) {m : Nat}
    (first : Library.occurrence delimiter (p.pending ++ writes.flatten) = some m) :
    ExactFrom memory delimiter p calls writes m := by
  induction writes generalizing p calls m with
  | nil =>
    have short := holding.short
    have inside := Library.occurrence_end_le first
    rw [List.flatten_nil, List.append_nil] at inside
    omega
  | cons buf later ih =>
    rw [List.forall_mem_cons] at filled fits
    cases here : Library.occurrence delimiter (p.pending ++ buf) with
    | some pos =>
      have whole := Library.occurrence_append here (t := later.flatten)
      rw [List.append_assoc, ← List.flatten_cons, first] at whole
      cases whole
      exact exactFrom_found holding fits.1 filled.1 memory calls here later
    | none =>
      obtain ⟨-, -, back⟩ := held_spec holding fits.1 filled.1 memory calls
      have begun := length_lt_of_missing holding.short here first
      have safe : (p.pending ++ buf).length - held (memory calls) p buf ≤ m := by
        by_contra lost
        have kept := keepsBack_of_coherent holding fits.1 filled.1 (coherent_grown holding coherent) (memory calls)
          (by rw [List.append_assoc, ← List.flatten_cons]; exact first)
          (by omega : 0 < (p.pending ++ buf).length - m) (by omega) (by omega)
        have enough := (back _ (by omega)).mpr kept
        omega
      obtain ⟨coherent', sized'⟩ := coherent_keeping holding fits.1 filled.1 coherent sized short memory calls
      rw [exactFrom_missing_iff holding fits.1 filled.1 memory calls here first safe]
      exact ih (holding_keeping holding fits.1 filled.1 memory calls) coherent' sized' (calls + 1) filled.2 fits.2
        (occurrence_keeping holding fits.1 filled.1 memory calls first safe)

theorem delivers_of_short {delimiter content rest : Bytes} (some : delimiter ≠ []) (short : delimiter.length ≤ 2)
    {writes : List Bytes} (delivery : Delivery delimiter content rest writes) (memory : Nat → Fresh) :
    Delivers memory delimiter content writes := by
  have first : Library.occurrence delimiter writes.flatten = .some content.length := by
    rw [delivery.split]
    exact delivery.first
  have taken : writes.flatten.take content.length = content := by
    rw [delivery.split, List.append_assoc, List.take_left' rfl]
  have exact : ExactFrom memory delimiter (.new (untilDelimiter delimiter)) 0 writes content.length :=
    exactFrom_of_short short (holding_new some) (BChunks.coherent_of_empty rfl rfl) (BChunks.sized_empty _) 0
      delivery.filled delivery.fits first
  change Exact _ (writes.flatten.take content.length) (content.length + delimiter.length - 0) at exact
  rw [taken, Nat.sub_zero] at exact
  exact exact

/-! ## Three bytes and a fourth -/

section
variable {a b c x : UInt8} {tail : Bytes}

theorem fits_byte {delimiter : Bytes} (small : delimiter.length < 2 ^ 18) (b : UInt8) : Fits delimiter [b] := by
  have one : Limits.default.chunkCount [b].length = 1 := by simp [Limits.chunkCount, Limits.default]
  have maxChunks : Limits.default.maxChunks = 2 ^ 18 := rfl
  refine ⟨by omega, ?_⟩
  rw [List.length_singleton]
  omega

variable (fresh : Fresh)

/-- What is copied out where the first offset is that of the second chunk. -/
theorem copyOut_stages (a b x : UInt8) :
    BChunks.copyOut ⟨[⟨[a], 0⟩, ⟨[b], 1⟩], 2, .default⟩ 2 0 = some [a, b] ∧
      BChunks.copyOut ⟨[⟨[a], 1⟩, ⟨[b], 1⟩, ⟨[x], 2⟩], 3, .default⟩ 3 0 = none ∧
      BChunks.copyOut ⟨[⟨[a], 1⟩, ⟨[b], 1⟩, ⟨[x], 2⟩], 3, .default⟩ 2 1 = some [a, b] ∧
      BChunks.copyOut ⟨[⟨[a], 1⟩, ⟨[b], 2⟩, ⟨[x], 3⟩], 3, .default⟩ 3 0 = none ∧
      BChunks.copyOut ⟨[⟨[a], 1⟩, ⟨[b], 2⟩, ⟨[x], 3⟩], 3, .default⟩ 2 1 = some [a, b] ∧
      BChunks.copyOut ⟨[⟨[a], 1⟩, ⟨[b], 2⟩, ⟨[x], 3⟩], 3, .default⟩ 1 2 = some [b] := by
  simp [BChunks.copyOut, overflowSum, BChunks.size, BChunks.iChunkGetPosForOffset, BChunks.searchFrom, BChunks.middle,
    BinaryContainerChunk.containsOffset, BinaryContainerChunk.nextOffset, BinaryContainerChunk.size,
    BinaryContainerChunk.moveToOffset, BChunks.copyOutLoop]

theorem displace_stage (a b x : UInt8) :
    (BChunks.displace ⟨[⟨[a], 1⟩, ⟨[b], 1⟩, ⟨[x], 2⟩], 3, .default⟩ 1).2 =
      ⟨[⟨[b], 1⟩, ⟨[x], 2⟩], 2, .default⟩ := by
  rw [BChunks.displace_eq ⟨by rfl, by simp⟩]
  simp [BChunks.cut, BChunks.recalcChunkOffsets_cons, BChunks.size, BinaryContainerChunk.size]

/-- The state before the first, the second, the third and the fourth byte. -/
def stage (delimiter : Bytes) (a b x : UInt8) : Nat → SubParser
  | 0 => waitingFor delimiter [] 0
  | 1 => waitingFor delimiter [⟨[a], 0⟩] 1
  | 2 => waitingFor delimiter [⟨[a], 1⟩, ⟨[b], 1⟩] 2
  | _ => waitingFor delimiter [⟨[b], 1⟩, ⟨[x], 2⟩] 2

theorem keeping_first (holding : Holding (a :: b :: c :: tail) (stage (a :: b :: c :: tail) a b x 0))
    (fits : Fits (a :: b :: c :: tail) [a]) :
    keeping fresh (stage (a :: b :: c :: tail) a b x 0) [a] = stage (a :: b :: c :: tail) a b x 1 := by
  have grows : grown (stage (a :: b :: c :: tail) a b x 0) [a] = waitingFor (a :: b :: c :: tail) [⟨[a], 0⟩] 1 :=
    grown_byte _ [] (by simp) (by simp) a
  have back : held fresh (stage (a :: b :: c :: tail) a b x 0) [a] = 1 := by
    apply held_eq holding fits (by simp) Nat.one_pos
    · refine ⟨1, Nat.le_refl 1, ?_, ?_, ?_⟩
      · rw [holding.searched]
        simp
      · rw [grows]
        exact Nat.le_refl 1
      · rw [grows, holding.searched]
        exact (lastBytesMatch_copied [a] rfl rfl).trans (by simp)
    · rintro ⟨v, more, -, inside, -⟩
      rw [grows] at inside
      have size : v ≤ 1 := inside
      omega
  unfold keeping
  rw [back, grows]
  rfl

theorem keeping_second (holding : Holding (a :: b :: c :: tail) (stage (a :: b :: c :: tail) a b x 1))
    (fits : Fits (a :: b :: c :: tail) [b]) :
    keeping fresh (stage (a :: b :: c :: tail) a b x 1) [b] = stage (a :: b :: c :: tail) a b x 2 := by
  have grows : grown (stage (a :: b :: c :: tail) a b x 1) [b] =
      waitingFor (a :: b :: c :: tail) [⟨[a], 0⟩, ⟨[b], 1⟩] 2 := grown_byte _ [⟨[a], 0⟩] (by simp) (by simp) b
  have back : held fresh (stage (a :: b :: c :: tail) a b x 1) [b] = 2 := by
    apply held_eq holding fits (by simp) Nat.two_pos
    · refine ⟨2, Nat.le_refl 2, ?_, ?_, ?_⟩
      · rw [holding.searched]
        simp
      · rw [grows]
        exact Nat.le_refl 2
      · rw [grows, holding.searched]
        exact (lastBytesMatch_copied [a, b] (copyOut_stages a b x).1 rfl).trans (by simp)
    · rintro ⟨v, more, -, inside, -⟩
      rw [grows] at inside
      have size : v ≤ 2 := inside
      omega
  unfold keeping
  rw [back, grows]
  rfl

theorem keeping_third (holding : Holding (a :: b :: c :: tail) (stage (a :: b :: c :: tail) a b x 2))
    (fits : Fits (a :: b :: c :: tail) [x]) (other : a ≠ x) :
    keeping (fun size => Vector.replicate size x) (stage (a :: b :: c :: tail) a b x 2) [x] =
      stage (a :: b :: c :: tail) a b x 3 := by
  have grows : grown (stage (a :: b :: c :: tail) a b x 2) [x] =
      waitingFor (a :: b :: c :: tail) [⟨[a], 1⟩, ⟨[b], 1⟩, ⟨[x], 2⟩] 3 :=
    grown_byte _ [⟨[a], 1⟩, ⟨[b], 1⟩] (by simp) (by simp) x
  have back : held (fun size => Vector.replicate size x) (stage (a :: b :: c :: tail) a b x 2) [x] = 2 := by
    apply held_eq holding fits (by simp) Nat.two_pos
    · refine ⟨2, Nat.le_refl 2, ?_, ?_, ?_⟩
      · rw [holding.searched]
        simp
      · rw [grows]
        exact (by decide : 2 ≤ 3)
      · rw [grows, holding.searched]
        exact (lastBytesMatch_copied [a, b] (copyOut_stages a b x).2.2.1 rfl).trans (by simp)
    · rintro ⟨v, more, -, inside, here⟩
      rw [grows] at inside here
      have size : v ≤ 3 := inside
      obtain rfl : v = 3 := by omega
      rw [holding.searched] at here
      have missed := (lastBytesMatch_missed (copyOut_stages a b x).2.1).symm.trans here
      simp [List.replicate, other.symm] at missed
  unfold keeping
  rw [back, grows]
  rw [if_neg (by decide)]
  have displaced := displace_stage a b x
  simp only [waitingFor, stage, BChunks.size]
  rw [displaced]

/-- The fourth byte begins the delimiter, and the comparisons look elsewhere. -/
theorem not_keepsBack_fourth (holding : Holding (a :: b :: c :: tail) (stage (a :: b :: c :: tail) a b x 3))
    (other : a ≠ x) (other' : b ≠ x) :
    ¬KeepsBack (fun size => Vector.replicate size x) (stage (a :: b :: c :: tail) a b x 3) [a] 1 := by
  have grows : grown (stage (a :: b :: c :: tail) a b x 3) [a] =
      waitingFor (a :: b :: c :: tail) [⟨[b], 1⟩, ⟨[x], 2⟩, ⟨[a], 3⟩] 3 :=
    grown_byte _ [⟨[b], 1⟩, ⟨[x], 2⟩] (by simp) (by simp) a
  rintro ⟨v, some, -, inside, here⟩
  rw [grows] at inside here
  have size : v ≤ 3 := inside
  rw [holding.searched] at here
  obtain rfl | rfl | rfl : v = 1 ∨ v = 2 ∨ v = 3 := by omega
  · have compared := (lastBytesMatch_copied [x] (copyOut_stages b x a).2.2.2.2.2 rfl).symm.trans here
    simp [other.symm] at compared
  · have compared := (lastBytesMatch_copied [b, x] (copyOut_stages b x a).2.2.2.2.1 rfl).symm.trans here
    simp [other'.symm] at compared
  · have compared := (lastBytesMatch_missed (copyOut_stages b x a).2.2.2.1).symm.trans here
    simp [List.replicate, other.symm] at compared

theorem exists_other (a b c : UInt8) : ∃ x, a ≠ x ∧ b ≠ x ∧ c ≠ x := by
  by_contra none
  have all : [0, 1, 2, 3] ⊆ [a, b, c] := by
    intro x _
    simp only [not_exists, not_and_or, not_not] at none
    rcases none x with rfl | rfl | rfl <;> simp
  have short := (List.subperm_of_subset (by decide) all).length_le
  simp at short

theorem missing_of_length {delimiter s : Bytes} (short : s.length < delimiter.length) :
    Library.occurrence delimiter s = none := by
  cases found : Library.occurrence delimiter s with
  | none => rfl
  | some i =>
    have inside := Library.occurrence_end_le found
    omega

/-- Three bytes that are not the delimiter hold it nowhere, if it has at least as many. -/
theorem missing_of_three {a' b' c' : UInt8} (differs : ¬(a = a' ∧ b = b' ∧ c = c')) :
    Library.occurrence (a :: b :: c :: tail) [a', b', c'] = none := by
  cases found : Library.occurrence (a :: b :: c :: tail) [a', b', c'] with
  | none => rfl
  | some i =>
    have inside := Library.occurrence_end_le found
    obtain ⟨-, starts, -⟩ := Library.occurrence_eq_some_iff.mp found
    simp only [List.length_cons, List.length_nil] at inside
    obtain rfl : i = 0 := by omega
    simp only [List.drop_zero, List.cons_prefix_cons] at starts
    exact absurd ⟨starts.1, starts.2.1, starts.2.2.1⟩ differs

theorem first_of_three (other : a ≠ x) (other' : b ≠ x) (other'' : c ≠ x) (rest : Bytes) :
    Library.occurrence (a :: b :: c :: tail) ([a, b, x] ++ (a :: b :: c :: tail) ++ rest) = some 3 := by
  refine Library.occurrence_eq_some_iff.mpr ⟨by simp, by simp, fun j less starts => ?_⟩
  obtain rfl | rfl | rfl : j = 0 ∨ j = 1 ∨ j = 2 := by omega
  · simp [other''] at starts
  · simp [other'] at starts
  · simp [other] at starts

theorem flatten_bytes (s : Bytes) : (s.map fun byte => [byte]).flatten = s := by
  induction s with
  | nil => rfl
  | cons byte s ih => rw [List.map_cons, List.flatten_cons, ih, List.singleton_append]

theorem delivery_of_three (small : (a :: b :: c :: tail).length < 2 ^ 18) (other : a ≠ x) (other' : b ≠ x)
    (other'' : c ≠ x) : Delivery (a :: b :: c :: tail) [a, b, x] []
      (([a, b, x] ++ (a :: b :: c :: tail)).map fun byte => [byte]) where
  first := first_of_three other other' other'' []
  split := by rw [flatten_bytes, List.append_nil]
  filled := by simp
  fits := by
    intro buf member
    obtain ⟨byte, -, rfl⟩ := List.mem_map.mp member
    exact fits_byte small byte

/-- Three bytes before a delimiter of at least three, written one by one, lose its first byte. -/
theorem not_delivers_of_three (small : (a :: b :: c :: tail).length < 2 ^ 18) (other : a ≠ x) (other' : b ≠ x)
    (other'' : c ≠ x) : ¬Delivers (fun _ size => Vector.replicate size x) (a :: b :: c :: tail) [a, b, x]
      (([a, b, x] ++ (a :: b :: c :: tail)).map fun byte => [byte]) := by
  have delivery : Delivery (a :: b :: c :: tail) _ _ _ := delivery_of_three small other other' other''
  intro delivers
  have keeps := (delivers_iff_keepsDelimiter (by simp) delivery _).mp delivers
  have three : 3 ≤ (a :: b :: c :: tail).length := by simp
  have holding₀ : Holding (a :: b :: c :: tail) (stage (a :: b :: c :: tail) a b x 0) := holding_new (by simp)
  have fitsA := fits_byte small a
  have fitsB := fits_byte small b
  have fitsX := fits_byte small x
  have missing₀ : Library.occurrence (a :: b :: c :: tail) ((stage (a :: b :: c :: tail) a b x 0).pending ++ [a]) = none :=
    missing_of_length (Nat.lt_of_lt_of_le (by decide : 1 < 3) three)
  have calls₀ := calls_missing holding₀ fitsA (by simp) (fun _ size => Vector.replicate size x) 0 missing₀
  have holding₁ := holding_keeping holding₀ fitsA (by simp) (fun _ size => Vector.replicate size x) 0
  rw [keeping_first _ holding₀ fitsA] at calls₀ holding₁
  have missing₁ : Library.occurrence (a :: b :: c :: tail) ((stage (a :: b :: c :: tail) a b x 1).pending ++ [b]) = none :=
    missing_of_length (Nat.lt_of_lt_of_le (by decide : 2 < 3) three)
  have calls₁ := calls_missing holding₁ fitsB (by simp) (fun _ size => Vector.replicate size x) 1 missing₁
  have holding₂ := holding_keeping holding₁ fitsB (by simp) (fun _ size => Vector.replicate size x) 1
  rw [keeping_second _ holding₁ fitsB] at calls₁ holding₂
  have missing₂ : Library.occurrence (a :: b :: c :: tail) ((stage (a :: b :: c :: tail) a b x 2).pending ++ [x]) = none :=
    missing_of_three fun same => other'' same.2.2
  have calls₂ := calls_missing holding₂ fitsX (by simp) (fun _ size => Vector.replicate size x) 2 missing₂
  have holding₃ := holding_keeping holding₂ fitsX (by simp) (fun _ size => Vector.replicate size x) 2
  rw [keeping_third holding₂ fitsX other] at calls₂ holding₃
  have missing₃ : Library.occurrence (a :: b :: c :: tail) ((stage (a :: b :: c :: tail) a b x 3).pending ++ [a]) = none :=
    missing_of_three fun same => other' same.2.1
  have calls₃ := calls_missing holding₃ fitsA (by simp) (fun _ size => Vector.replicate size x) 3 missing₃
  refine not_keepsBack_fourth holding₃ other other' (keeps 3 _ _ 1 ?_ Nat.one_pos ?_ ?_)
  · show ((contentProtocol _).calls ⟨some (stage (a :: b :: c :: tail) a b x 0), 0⟩
      ([a] :: [b] :: [x] :: [a] :: ((b :: c :: tail).map fun byte => [byte])))[3]? = _
    rw [calls₀, calls₁, calls₂, calls₃]
    rfl
  · exact Nat.lt_of_lt_of_le (by decide : 1 < 3) three
  · rfl

end

/-! ## Every content and every split -/

/-- Whether a delivery is exact lies with the writes that end inside the delimiter: each
must keep back what has come of it. All deliveries are exact for delimiters of one or two
bytes only. -/
theorem delivers_iff {delimiter : Bytes} (some : delimiter ≠ []) :
    (∀ memory content rest writes, Delivery delimiter content rest writes →
      (Delivers memory delimiter content writes ↔
        KeepsDelimiter memory (.new (untilDelimiter delimiter)) 0 writes content.length)) ∧
      (delimiter.length < 2 ^ 18 →
        ((∀ memory content rest writes, Delivery delimiter content rest writes →
          Delivers memory delimiter content writes) ↔ delimiter.length ≤ 2)) := by
  refine ⟨fun memory content rest writes delivery => delivers_iff_keepsDelimiter some delivery memory, fun small => ?_⟩
  constructor
  · intro all
    by_contra long
    obtain ⟨a, b, c, tail, rfl⟩ : ∃ a b c tail, delimiter = a :: b :: c :: tail := by
      match delimiter, long with
      | a :: b :: c :: tail, _ => exact ⟨a, b, c, tail, rfl⟩
      | [], long => simp at long
      | [_], long => simp at long
      | [_, _], long => simp at long
    obtain ⟨x, other, other', other''⟩ := exists_other a b c
    exact not_delivers_of_three small other other' other''
      (all _ [a, b, x] [] _ (delivery_of_three small other other' other''))
  · intro short memory content rest writes delivery
    exact delivers_of_short some short delivery memory

theorem delivers_iff_crlf : Delivers (fun _ size => Vector.replicate size 0) [13, 10] [7] [[7], [13], [10, 8]] := by
  apply ((delivers_iff (by decide)).2 (by decide)).mpr (by decide) _ _ [8]
  exact ⟨by decide, by decide, by decide, by simp [Fits, Limits.chunkCount, Limits.default]⟩

/-- `"aab"` before `"aaa"`, byte by byte. -/
theorem delivers_fails : ¬∀ memory delimiter content rest writes, delimiter ≠ [] →
    Delivery delimiter content rest writes → Delivers memory delimiter content writes := by
  intro all
  have delivery : Delivery [97, 97, 97] [97, 97, 98] [] _ :=
    delivery_of_three (by simp) (by decide) (by decide) (by decide)
  exact not_delivers_of_three (by simp) (by decide) (by decide) (by decide) (all _ _ _ _ _ (by decide) delivery)

end Mantids.Memory.Streams
