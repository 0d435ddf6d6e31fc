import Mantids.Memory.Spilling

/-! What each edit of the memory mode leaves as content: all do what a string of bytes does, but for a prepend
of several chunks, which puts them in front one after the other (`append2`). -/

set_option autoImplicit false

namespace Mantids.Memory

/-- The pieces of a buffer, of `maxChunkSize` bytes each but for the last. -/
def piecesWithin (maxChunkSize : Nat) : (turns : Nat) → Bytes → List Bytes
  | _, [] => []
  | 0, _ :: _ => []
  | turns + 1, byte :: rest =>
    (byte :: rest).take maxChunkSize :: piecesWithin maxChunkSize turns ((byte :: rest).drop maxChunkSize)

def pieces (maxChunkSize : Nat) (buf : Bytes) : List Bytes := piecesWithin maxChunkSize buf.length buf

/-- More turns than bytes are not needed. -/
theorem piecesWithin_eq {maxChunkSize : Nat} (positive : maxChunkSize ≠ 0) {turns : Nat} {buf : Bytes}
    (enough : buf.length ≤ turns) : piecesWithin maxChunkSize turns buf = pieces maxChunkSize buf := by
  have same : ∀ (turns other : Nat) (buf : Bytes), buf.length ≤ turns → buf.length ≤ other →
      piecesWithin maxChunkSize turns buf = piecesWithin maxChunkSize other buf := by
    intro turns
    induction turns with
    | zero =>
      intro other buf none _
      have empty : buf = [] := List.length_eq_zero_iff.mp (Nat.le_zero.mp none)
      subst empty
      cases other <;> rfl
    | succ turns ih =>
      intro other buf enough enough'
      cases buf with
      | nil => cases other <;> rfl
      | cons byte rest =>
        cases other with
        | zero => exact absurd enough' (by simp)
        | succ other =>
          have fewer : ((byte :: rest).drop maxChunkSize).length ≤ rest.length := by
            rw [List.length_drop, List.length_cons]
            omega
          rw [List.length_cons] at enough enough'
          rw [piecesWithin, piecesWithin, ih other _ (by omega) (by omega)]
  exact same turns _ buf enough (Nat.le_refl _)

theorem pieces_cons {maxChunkSize : Nat} (positive : maxChunkSize ≠ 0) (byte : UInt8) (rest : Bytes) :
    pieces maxChunkSize (byte :: rest) =
      (byte :: rest).take maxChunkSize :: pieces maxChunkSize ((byte :: rest).drop maxChunkSize) := by
  have fewer : ((byte :: rest).drop maxChunkSize).length ≤ rest.length := by
    rw [List.length_drop, List.length_cons]
    omega
  rw [pieces, List.length_cons, piecesWithin, piecesWithin_eq positive fewer]

/-- What fits in a chunk is one piece. -/
theorem pieces_single {maxChunkSize : Nat} {buf : Bytes} (filled : buf ≠ []) (fits : buf.length ≤ maxChunkSize) :
    pieces maxChunkSize buf = [buf] := by
  obtain ⟨byte, rest, rfl⟩ := List.exists_cons_of_ne_nil filled
  have positive : maxChunkSize ≠ 0 := by
    rw [List.length_cons] at fits
    omega
  rw [pieces_cons positive, List.take_of_length_le fits, List.drop_eq_nil_of_le fits]
  rfl

namespace BChunks

/-- The edit answers and leaves what a string of bytes does, where it is taken. -/
def Effective (c : BChunks) : Change → Prop
  | .append buf =>
    (c.append buf).1.1 = true → (c.append buf).1.2 = buf.length ∧
      content (c.append buf).2.chunksVector = content c.chunksVector ++ buf
  | .prepend buf =>
    (c.prepend buf).1.1 = true → (c.prepend buf).1.2 = buf.length ∧
      content (c.prepend buf).2.chunksVector = buf ++ content c.chunksVector
  | .displace bytes =>
    (c.displace bytes).1 = (true, min bytes (content c.chunksVector).length) ∧
      content (c.displace bytes).2.chunksVector = (content c.chunksVector).drop bytes
  | .truncate bytes =>
    bytes < (content c.chunksVector).length → (c.truncate bytes).1.1 = true ∧
      content (c.truncate bytes).2.chunksVector = (content c.chunksVector).take bytes

/-- There is room for the bytes and for the chunks that they take. -/
structure Fits (c : BChunks) (buf : Bytes) : Prop where
  accepts : Accepts c buf
  positive : c.limits.maxChunkSize ≠ 0
  room : c.chunksVector.length + c.limits.chunkCount buf.length ≤ c.limits.maxChunks

/-- The pieces of a buffer that is put in front read the same from the last to the first. -/
def Symmetric (c : BChunks) : Change → Prop
  | .prepend buf => Fits c buf → (pieces c.limits.maxChunkSize buf).reverse.flatten = buf
  | .append _ | .displace _ | .truncate _ => True

section
variable {c : BChunks}

/-- Without a chunk size no byte is stored, however many chunks there are. -/
theorem insertLoop_stuck (prependMode : Bool) (zero : c.limits.maxChunkSize = 0) (room : Nat) {buf : Bytes}
    (filled : buf ≠ []) (appended : Nat) : (insertLoop prependMode room buf appended c).1.1 = false := by
  induction room generalizing c appended with
  | zero =>
    obtain ⟨byte, rest, rfl⟩ := List.exists_cons_of_ne_nil filled
    rfl
  | succ room ih =>
    obtain ⟨byte, rest, rfl⟩ := List.exists_cons_of_ne_nil filled
    rw [insertLoop, zero, List.drop_zero]
    apply ih
    exact zero

/-- Each turn puts its piece in front of the ones before it. -/
theorem insertLoop_prepended (positive : c.limits.maxChunkSize ≠ 0) {room : Nat} {buf : Bytes}
    (enough : c.limits.chunkCount buf.length ≤ room) (appended : Nat) :
    content (insertLoop true room buf appended c).2.chunksVector =
      (pieces c.limits.maxChunkSize buf).reverse.flatten ++ content c.chunksVector := by
  fun_induction insertLoop true room buf appended c with
  | case1 room appended c =>
    rw [if_pos rfl, content_recalcChunkOffsets]
    rfl
  | case2 byte rest appended c =>
    rw [chunkCount_cons positive (by simp)] at enough
    omega
  | case3 room byte rest appended c chunk ih =>
    have count := chunkCount_cons positive (show 0 < (byte :: rest).length from Nat.zero_lt_succ _)
    rw [← List.length_drop] at count
    have vector : content (insertChunk true c chunk).chunksVector = chunk ++ content c.chunksVector := rfl
    rw [ih positive (show c.limits.chunkCount _ ≤ room by omega), vector, limits_insertChunk, pieces_cons positive,
      List.reverse_cons, List.flatten_append, List.flatten_singleton, List.append_assoc]

/-- Bytes are added only where there is room for them. -/
theorem fits_of_taken {prependMode : Bool} {buf : Bytes} (filled : buf ≠ [])
    (taken : (insert prependMode c buf).1.1 = true) : Fits c buf := by
  by_cases accepts : Accepts c buf
  · rw [insert_of_accepts prependMode accepts] at taken
    by_cases positive : c.limits.maxChunkSize = 0
    · rw [insertLoop_stuck prependMode positive _ filled] at taken
      cases taken
    · refine ⟨accepts, positive, ?_⟩
      have some := chunkCount_cons positive (List.length_pos_of_ne_nil filled)
      by_contra few
      rw [insertLoop_full positive prependMode 0 (by omega)] at taken
      cases taken
  · rw [insert_refused prependMode filled accepts] at taken
    cases taken

/-- No bytes: nothing changes. -/
theorem insert_none {prependMode : Bool} (taken : (insert prependMode c []).1.1 = true) :
    insert prependMode c [] = ((true, 0), c) := by
  unfold insert at taken ⊢
  split at taken
  · cases taken
  split at taken
  · cases taken
  · simp only [*, if_false, if_true, Bool.false_eq_true]

theorem append_effective (counted : Counted c) (buf : Bytes) : Effective c (.append buf) := by
  intro taken
  by_cases filled : buf = []
  · subst filled
    rw [append, insert_none taken]
    exact ⟨rfl, (List.append_nil _).symm⟩
  · obtain ⟨accepts, positive, room⟩ := fits_of_taken filled taken
    obtain ⟨c', result, after⟩ := append_appended counted positive filled (Nat.add_comm _ _ ▸ accepts.2.2) room
    rw [result]
    exact ⟨rfl, after.content⟩

theorem prepend_prepended {buf : Bytes} (fits : Fits c buf) :
    (c.prepend buf).1 = (true, buf.length) ∧ content (c.prepend buf).2.chunksVector =
      (pieces c.limits.maxChunkSize buf).reverse.flatten ++ content c.chunksVector := by
  have enough : c.limits.chunkCount buf.length ≤ c.limits.maxChunks - c.chunksVector.length := by
    have room := fits.room
    omega
  rw [prepend, insert_of_accepts true fits.accepts]
  constructor
  · rw [insertLoop_taken fits.positive true 0 enough, Nat.zero_add]
  · exact insertLoop_prepended fits.positive enough 0

theorem prepend_effective_iff (buf : Bytes) : Effective c (.prepend buf) ↔ Symmetric c (.prepend buf) := by
  constructor
  · intro effective fits
    obtain ⟨answer, after⟩ := prepend_prepended fits
    have right := (effective (congrArg Prod.fst answer)).2
    rw [after] at right
    exact List.append_cancel_right right
  · intro symmetric taken
    by_cases filled : buf = []
    · subst filled
      rw [prepend, insert_none taken]
      exact ⟨rfl, rfl⟩
    · have fits := fits_of_taken filled taken
      obtain ⟨answer, after⟩ := prepend_prepended fits
      rw [answer, after, symmetric fits]
      exact ⟨rfl, rfl⟩

theorem displace_effective (counted : Counted c) (bytes : Nat) : Effective c (.displace bytes) := by
  have size : c.size = (content c.chunksVector).length := by
    rw [length_content]
    exact counted.bytes
  have answer := displace_eq counted bytes
  constructor
  · rw [answer, size]
  · rw [answer]
    simp only [content_recalcChunkOffsets, content_cut]
    rw [size]
    rcases Nat.le_total bytes (content c.chunksVector).length with less | more
    · rw [Nat.min_eq_left less]
    · rw [Nat.min_eq_right more, List.drop_length, List.drop_eq_nil_of_le more]

theorem truncate_effective (coherent : Coherent c) (bytes : Nat) : Effective c (.truncate bytes) := by
  intro less
  rw [length_content, ← coherent.counted] at less
  obtain ⟨c', result, after⟩ := content_truncate coherent less
  rw [result]
  exact ⟨rfl, after⟩

end

/-- An edit does what it does to a string of bytes, unless it puts several pieces in front that do not read the
same from the last to the first. -/
theorem effective_iff {c : BChunks} (coherent : Coherent c) (change : Change) : Effective c change ↔ Symmetric c change := by
  cases change with
  | append buf => exact iff_of_true (append_effective coherent.isCounted buf) trivial
  | prepend buf => exact prepend_effective_iff buf
  | displace bytes => exact iff_of_true (displace_effective coherent.isCounted bytes) trivial
  | truncate bytes => exact iff_of_true (truncate_effective coherent bytes) trivial

/-- Three bytes go in front of an empty container in one piece. -/
theorem effective_iff_default : Effective (empty .default) (.prepend [1, 2, 3]) := by
  apply (effective_iff (coherent_of_empty rfl rfl) _).mpr
  intro _
  exact congrArg List.flatten (congrArg List.reverse (pieces_single (by decide) (by decide)))

/-- With chunks of two bytes the third byte of a prepend comes first. -/
theorem not_effective :
    ¬∀ c, Coherent c → c.chunksVector.length ≤ c.limits.maxChunks → ∀ change, Effective c change := by
  intro all
  have effective := all (empty ⟨100, 10, 2, by decide, by decide, by decide⟩) (coherent_of_empty rfl rfl) (by decide)
    (.prepend [1, 2, 3])
  exact absurd (effective (by decide)).2 (by decide)

end BChunks

end Mantids.Memory
