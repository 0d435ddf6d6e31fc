import Mantids.Library.Occurrence
import Mantids.Memory.ContentEdits
import Mantids.Memory.SearchAgreement
import Mantids.Memory.Slices

/-! Moving an element from one container to another (`B_Base::displaceUntil`): the needle is sought in any case but
for its first character, and what is removed is counted by what the other container holds then. -/

set_option autoImplicit false

namespace Mantids.Memory.BChunks

open Library

/-- `B_Base::write`. -/
def write (destination : BChunks) (buf : Bytes) : StreamableObject.Status × BChunks :=
  let (bytesAppended, destination) := destination.append buf
  (if bytesAppended.1 then .all bytesAppended.2 else ⟨0, false, false⟩, destination)

/-- The code that is returned, and the destination; what the copy reports is not looked at. -/
def copyUntil (source destination : BChunks) (needle : Bytes) (maxCopySize : Nat) (removeNeedle : Bool) :
    Option (Int × BChunks) :=
  match (Container.chunks source).find needle false 0 maxCopySize with
  | none => none
  | some (false, _) => some (-1, destination)
  | some (true, needlePos) =>
    if overflowSum needlePos needle.length then some (-1, destination)
    else if removeNeedle then
      if maxCopySize < needlePos then some (-2, destination)
      else (source.appendTo write destination needlePos 0).map fun copied => (0, copied.2)
    else
      if maxCopySize < needlePos + needle.length then some (-2, destination)
      else (source.appendTo write destination (needlePos + needle.length) 0).map fun copied => (0, copied.2)

/-- The code, the source and the destination. -/
def displaceUntil (source destination : BChunks) (needle : Bytes) (maxCopySize : Nat) (removeNeedle : Bool) :
    Option (Int × BChunks × BChunks) :=
  (copyUntil source destination needle maxCopySize removeNeedle).map fun (retr, destination) =>
    if retr < 0 then (retr, source, destination)
    else
      (0, (source.displace ((destination.size + if removeNeedle then needle.length else 0) % 2 ^ 64)).2, destination)

/-- With a list of needles, one after the other. -/
def displaceUntilAny (source destination : BChunks) (maxCopySize : Nat) (removeNeedle : Bool) :
    List Bytes → Option (Int × BChunks × BChunks)
  | [] => some (-1, source, destination)
  | needle :: needles =>
    match displaceUntil source destination needle maxCopySize removeNeedle with
    | none => none
    | some (retr, source, destination) =>
      if retr = 0 then some (0, source, destination)
      else displaceUntilAny source destination maxCopySize removeNeedle needles

/-! ## What is found -/

/-- The needle is there, in any case but for its first character. -/
def Variant (s needle : Bytes) (q : Nat) : Prop :=
  s[q]? = needle.head? ∧ sighted false needle <+: (sighted false s).drop q

/-- The first place of that kind. -/
structure FirstVariant (s needle : Bytes) (q : Nat) : Prop where
  here : Variant s needle q
  first : ∀ j < q, ¬Variant s needle j

/-- Content in small letters. -/
def lowered (chunks : List BinaryContainerChunk) : List BinaryContainerChunk :=
  chunks.map fun chunk => { chunk with data := chunk.data.map tolower }

theorem content_lowered (chunks : List BinaryContainerChunk) : content (lowered chunks) = (content chunks).map tolower := by
  induction chunks with
  | nil => rfl
  | cons chunk rest ih =>
    rw [lowered, List.map_cons, content_cons, content_cons, List.map_append, ← ih]
    rfl

theorem totalSize_lowered (chunks : List BinaryContainerChunk) : totalSize (lowered chunks) = totalSize chunks := by
  rw [← length_content, content_lowered, List.length_map, length_content]

theorem zip_icharcmp (s1 s2 : Bytes) (same : s1.length = s2.length) :
    ((s1.zip s2).all fun c => Mem.icharcmp c.1 c.2) = decide (s1.map tolower = s2.map tolower) := by
  induction s1 generalizing s2 with
  | nil =>
    have none : s2 = [] := List.length_eq_zero_iff.mp same.symm
    rw [none]
    rfl
  | cons c1 rest ih =>
    cases s2 with
    | nil => cases same
    | cons c2 others =>
      rw [List.zip_cons_cons, List.all_cons, ih others (Nat.succ.inj same), Mem.icharcmp, ← Bool.decide_and,
        List.map_cons, List.map_cons, decide_eq_decide, List.cons.injEq]

/-- Without the case the comparison is one of small letters. -/
theorem compareModeLoop_lowered (chunks : List BinaryContainerChunk) (offset : Nat) (buf : Bytes) :
    compareModeLoop false chunks offset buf = some (compareLoop (lowered chunks) offset (buf.map tolower)) := by
  induction chunks generalizing offset buf with
  | nil =>
    rw [compareModeLoop, lowered, List.map_nil, compareLoop, Option.some_inj, decide_eq_decide]
    exact List.map_eq_nil_iff.symm
  | cons i rest ih =>
    have tail : lowered (i :: rest) = { i with data := i.data.map tolower } :: lowered rest := rfl
    have size : BinaryContainerChunk.size { i with data := i.data.map tolower } = i.size := List.length_map ..
    rw [tail, compareModeLoop, compareLoop, size]
    split
    · exact ih _ buf
    · simp only [← List.map_drop, List.length_map, ← List.map_take, List.map_eq_nil_iff, Mem.memicmp2,
        Bool.false_eq_true, if_false, ih]
      generalize i.data.drop offset = current
      have within : (if current.length < buf.length then current.length else buf.length) ≤ current.length ∧
          (if current.length < buf.length then current.length else buf.length) ≤ buf.length := by
        split <;> omega
      generalize (if current.length < buf.length then current.length else buf.length) = count at within
      have lengths : (current.take count).length = (buf.take count).length := by
        rw [List.length_take, List.length_take]
        omega
      rw [zip_icharcmp _ _ lengths]
      by_cases same : (current.take count).map tolower = (buf.take count).map tolower
      · rw [decide_eq_true same, if_neg (not_not_intro same)]
        dsimp only
        split <;> rfl
      · rw [decide_eq_false same, if_pos same]

section
variable {c : BChunks} (counted : Counted c)
include counted

theorem length_counted : (content c.chunksVector).length = c.size := by
  rw [length_content]
  exact counted.bytes.symm

theorem compare2_lowered {needle : Bytes} (filled : needle ≠ []) {q : Nat} (le : q ≤ c.size) :
    (Container.chunks c).compare2 needle false q =
      some (decide (sighted false needle <+: (sighted false (content c.chunksVector)).drop q)) := by
  have size := length_counted counted
  have tooLong : c.size < q + needle.length →
      ¬sighted false needle <+: (sighted false (content c.chunksVector)).drop q := by
    intro long starts
    have short := starts.length_le
    rw [length_sighted, List.length_drop, length_sighted] at short
    omega
  unfold Container.compare2 Container.compareChecked
  by_cases wraps : overflowSum q needle.length = true
  · have word := counted.word
    have far := of_decide_eq_true wraps
    rw [if_pos wraps, decide_eq_false (tooLong (by unfold BChunks.size; omega))]
  rw [if_neg wraps, if_neg filled]
  by_cases long : c.size < q + needle.length
  · rw [if_pos long, decide_eq_false (tooLong long)]
  · have fits : q + (needle.map tolower).length ≤ totalSize (lowered c.chunksVector) := by
      rw [List.length_map, totalSize_lowered, ← length_content, size]
      omega
    rw [if_neg long, compareModeLoop_lowered, compareLoop_eq _ fits, content_lowered]
    rfl

/-- The next place of the first character, in this case. -/
theorem findChar_exact (first : UInt8) {offset searchSpace : Nat} (bound : offset + searchSpace ≤ c.size) :
    (Container.chunks c).findChar first offset searchSpace false =
      match (((content c.chunksVector).drop offset).take searchSpace).findIdx? (· = first) with
      | none => (false, 0)
      | some pos => (true, offset + pos) := by
  have word := counted.word
  have plain : overflowSum offset searchSpace = false := decide_eq_false (by unfold BChunks.size at bound; omega)
  have exact : taken false first = fun b => decide (b = first) := by
    funext b
    rfl
  rw [Container.findChar, Container.findCharChunks, plain, if_neg Bool.false_ne_true, if_neg (by omega),
    findCharModeLoop_eq, exact]
  cases (((content c.chunksVector).drop offset).take searchSpace).findIdx? fun b => decide (b = first) with
  | none => rfl
  | some pos =>
    simp only [Option.map_some, Nat.add_zero]
    rw [Nat.add_comm]

/-- The loop comes to the first variant of the search space, or to its end. -/
theorem findLoop_variant {first : UInt8} {rest : Bytes} {turns offset searchSpace : Nat} (enough : searchSpace < turns)
    (bound : offset + searchSpace ≤ c.size) :
    (∀ q, offset ≤ q → q < offset + searchSpace → Variant (content c.chunksVector) (first :: rest) q →
        (∀ j, offset ≤ j → j < q → ¬Variant (content c.chunksVector) (first :: rest) j) →
        (Container.chunks c).findLoop first (first :: rest) false turns offset searchSpace = some (true, q)) ∧
      ((∀ q, offset ≤ q → q < offset + searchSpace → ¬Variant (content c.chunksVector) (first :: rest) q) →
        (Container.chunks c).findLoop first (first :: rest) false turns offset searchSpace = some (false, 0)) := by
  have size := length_counted counted
  have word : c.size < 2 ^ 64 := counted.word
  induction turns generalizing offset searchSpace with
  | zero => exact absurd enough (Nat.not_lt_zero _)
  | succ turns ih =>
    have step := findChar_exact counted first bound
    cases found : (((content c.chunksVector).drop offset).take searchSpace).findIdx? (· = first) with
    | none =>
      rw [found] at step
      have absent : ∀ q, offset ≤ q → q < offset + searchSpace →
          ¬Variant (content c.chunksVector) (first :: rest) q := by
        intro q after before variant
        have none := List.findIdx?_eq_none_iff.mp found
        have inside : (((content c.chunksVector).drop offset).take searchSpace)[q - offset]? = some first := by
          rw [List.getElem?_take_of_lt (by omega), List.getElem?_drop, Nat.add_sub_cancel' after]
          exact variant.1
        have other := none first (List.mem_of_getElem? inside)
        simp at other
      have ends := Container.findLoop_none (congrArg Prod.fst step) (first :: rest) turns
      exact ⟨fun q after before variant _ => absurd variant (absent q after before), fun _ => ends⟩
    | some pos =>
      rw [found] at step
      obtain ⟨less, here, before⟩ := List.findIdx?_eq_some_iff_getElem.mp found
      rw [List.length_take, List.length_drop, size] at less
      rw [List.getElem_take, List.getElem_drop, decide_eq_true_eq] at here
      have place : (content c.chunksVector)[offset + pos]? = some first :=
        List.getElem?_eq_some_iff.mpr ⟨by omega, here⟩
      -- between the offset and this place there is no first character
      have earlier : ∀ j, offset ≤ j → j < offset + pos → ¬Variant (content c.chunksVector) (first :: rest) j := by
        intro j after less' variant
        have other := before (j - offset) (by omega)
        rw [List.getElem_take, List.getElem_drop, decide_eq_true_eq] at other
        have same := variant.1
        rw [List.getElem?_eq_getElem (by omega)] at same
        have index : offset + (j - offset) = j := Nat.add_sub_cancel' after
        simp only [index] at other
        exact other (Option.some.inj same)
      have compared := compare2_lowered counted (List.cons_ne_nil first rest) (show offset + pos ≤ c.size by omega)
      have turn := findLoop_candidate turns step (by omega) compared
      have variant_iff : Variant (content c.chunksVector) (first :: rest) (offset + pos) ↔
          sighted false (first :: rest) <+: (sighted false (content c.chunksVector)).drop (offset + pos) :=
        and_iff_right place
      by_cases variant : Variant (content c.chunksVector) (first :: rest) (offset + pos)
      · rw [decide_eq_true (variant_iff.mp variant), if_pos rfl] at turn
        constructor
        · intro q after _ there firstly
          rcases Nat.lt_trichotomy q (offset + pos) with less' | same | more
          · exact absurd there (earlier q after less')
          · rw [same, turn]
          · exact absurd variant (firstly _ (Nat.le_add_right _ _) more)
        · intro none
          exact absurd variant (none _ (Nat.le_add_right _ _) (by omega))
      · have left : (searchSpace + 2 ^ 64 - pos) % 2 ^ 64 = searchSpace - pos := by
          have wrapped : searchSpace + 2 ^ 64 - pos = searchSpace - pos + 2 ^ 64 := by omega
          rw [wrapped, Nat.add_mod_right, Nat.mod_eq_of_lt (by omega)]
        have next : (offset + pos + 1) % 2 ^ 64 = offset + pos + 1 := Nat.mod_eq_of_lt (by omega)
        rw [decide_eq_false (fun starts => variant (variant_iff.mpr starts)), if_neg Bool.false_ne_true, left,
          if_neg (by omega), next] at turn
        obtain ⟨one, none⟩ := @ih (offset + pos + 1) (searchSpace - pos - 1) (by omega) (by omega)
        rw [turn]
        constructor
        · intro q after less' there firstly
          have beyond : offset + pos + 1 ≤ q := by
            rcases Nat.lt_trichotomy q (offset + pos) with early | same | late
            · exact absurd there (earlier q after early)
            · exact absurd (same ▸ there) variant
            · exact late
          exact one q beyond (by omega) there fun j after' before' => firstly j (by omega) before'
        · intro absent
          exact none fun q after before' => absent q (by omega) (by omega)

/-- `find` comes to the first variant, where it searches that far. -/
theorem find_variant {needle : Bytes} (filled : needle ≠ []) {maxCopySize q : Nat}
    (variant : FirstVariant (content c.chunksVector) needle q) (within : maxCopySize ≤ c.size)
    (enough : needle.length ≤ spaceOf (content c.chunksVector) 0 maxCopySize)
    (reached : q < spaceOf (content c.chunksVector) 0 maxCopySize) :
    (Container.chunks c).find needle false 0 maxCopySize = some (true, q) := by
  obtain ⟨first, rest, rfl⟩ := List.exists_cons_of_ne_nil filled
  have size := length_counted counted
  have word : c.size < 2 ^ 64 := counted.word
  have whole : (Container.chunks c).size = (content c.chunksVector).length := size.symm
  have bound : spaceOf (content c.chunksVector) 0 maxCopySize ≤ c.size := by
    rw [spaceOf]
    split <;> omega
  rw [find_eq_findLoop whole (by omega) (by omega) enough]
  apply (findLoop_variant counted ?_ (by omega)).1 q (Nat.zero_le q) (by omega) variant.here
  · intro j _ before
    exact variant.first j before
  · exact Nat.lt_succ_of_le bound

theorem find_missed {needle : Bytes} (filled : needle ≠ []) {maxCopySize : Nat}
    (missed : maxCopySize ≤ c.size → needle.length ≤ spaceOf (content c.chunksVector) 0 maxCopySize →
      ∀ q < spaceOf (content c.chunksVector) 0 maxCopySize, ¬Variant (content c.chunksVector) needle q) :
    ∃ pos, (Container.chunks c).find needle false 0 maxCopySize = some (false, pos) := by
  obtain ⟨first, rest, rfl⟩ := List.exists_cons_of_ne_nil filled
  have size := length_counted counted
  have word : c.size < 2 ^ 64 := counted.word
  have same : (Container.chunks c).size = c.size := rfl
  have space : (if maxCopySize = 0 then (Container.chunks c).size - 0 else maxCopySize) =
      spaceOf (content c.chunksVector) 0 maxCopySize := by
    rw [spaceOf, same, size]
  by_cases within : maxCopySize ≤ c.size
  · by_cases enough : (first :: rest).length ≤ spaceOf (content c.chunksVector) 0 maxCopySize
    · have bound : spaceOf (content c.chunksVector) 0 maxCopySize ≤ c.size := by
        rw [spaceOf]
        split <;> omega
      have whole : (Container.chunks c).size = (content c.chunksVector).length := size.symm
      refine ⟨0, ?_⟩
      rw [find_eq_findLoop whole (by omega) (by omega) enough]
      apply (findLoop_variant counted (Nat.lt_succ_of_le bound) (by omega)).2
      intro q _ before
      exact missed within enough q (by omega)
    · unfold Container.find
      dsimp only
      rw [space]
      split
      · exact ⟨_, rfl⟩
      split
      · exact ⟨_, rfl⟩
      split
      · exact ⟨_, rfl⟩
      split
      · exact ⟨_, rfl⟩
      · exact ⟨Container.npos, if_pos (Nat.lt_of_not_le enough)⟩
  · -- a search space larger than the container finds no character
    have none : ((Container.chunks c).findChar first 0 maxCopySize false).1 = false := by
      rw [Container.findChar, Container.findCharChunks]
      split
      · rfl
      · rw [if_pos (.inr (by omega))]
    have some : maxCopySize ≠ 0 := by omega
    unfold Container.find
    dsimp only
    rw [if_neg some]
    split
    · exact ⟨_, rfl⟩
    split
    · exact ⟨_, rfl⟩
    split
    · exact ⟨_, rfl⟩
    split
    · exact ⟨_, rfl⟩
    · exact ⟨_, Container.findLoop_none none _ _⟩

end

/-! ## What is copied -/

/-- How many bytes of the pieces a container takes that has such a size and so many chunks. -/
def takenBytes (limits : Limits) : (size chunks : Nat) → List Bytes → Nat
  | _, _, [] => 0
  | size, chunks, piece :: rest =>
    if piece = [] then takenBytes limits size chunks rest
    else if limits.maxSize < piece.length + size then 0
    else if (limits.maxChunks - chunks) * limits.maxChunkSize < piece.length then
      (limits.maxChunks - chunks) * limits.maxChunkSize
    else piece.length + takenBytes limits (size + piece.length) (chunks + limits.chunkCount piece.length) rest

theorem takenBytes_le (limits : Limits) (size chunks : Nat) (pieces : List Bytes) :
    takenBytes limits size chunks pieces ≤ pieces.flatten.length := by
  fun_induction takenBytes limits size chunks pieces with
  | case1 => exact Nat.le_refl _
  | case2 size chunks rest ih => exact ih
  | case3 => exact Nat.zero_le _
  | case4 size chunks piece rest _ _ few =>
    rw [List.flatten_cons, List.length_append]
    omega
  | case5 size chunks piece rest _ _ _ ih =>
    rw [List.flatten_cons, List.length_append]
    omega

section
variable {d : BChunks}

/-- The loop stores as many bytes as the chunks that are left hold. -/
theorem insertLoop_stored (counted : Counted d) (room : Nat) (buf : Bytes) (appended : Nat)
    (word : buf.length + d.size < 2 ^ 64) :
    Counted (insertLoop false room buf appended d).2 ∧
      content (insertLoop false room buf appended d).2.chunksVector =
        content d.chunksVector ++ buf.take (room * d.limits.maxChunkSize) := by
  fun_induction insertLoop false room buf appended d with
  | case1 =>
    refine ⟨counted, ?_⟩
    rw [List.take_nil, List.append_nil]
    rfl
  | case2 byte rest appended d =>
    refine ⟨counted, ?_⟩
    rw [Nat.zero_mul, List.take_zero, List.append_nil]
  | case3 room byte rest appended d chunk ih =>
    have taken : chunk.length + ((byte :: rest).drop d.limits.maxChunkSize).length = (byte :: rest).length := by
      rw [← List.length_append, List.take_append_drop]
    have short : d.containerBytes + chunk.length < 2 ^ 64 := by
      unfold size at word
      omega
    obtain ⟨counted', same⟩ := insertChunk_appended counted short
    have bytes : (insertChunk false d chunk).size = d.size + chunk.length := Nat.mod_eq_of_lt short
    obtain ⟨counted'', stored⟩ := ih counted' (by omega)
    have parts : (byte :: rest).take ((room + 1) * d.limits.maxChunkSize) =
        chunk ++ ((byte :: rest).drop d.limits.maxChunkSize).take (room * d.limits.maxChunkSize) := by
      rw [Nat.succ_mul, Nat.add_comm, List.take_add]
    exact ⟨counted'', by rw [stored, same, limits_insertChunk, List.append_assoc, parts]⟩

theorem chunkCount_le_iff {limits : Limits} (positive : limits.maxChunkSize ≠ 0) (bytes room : Nat) :
    limits.chunkCount bytes ≤ room ↔ bytes ≤ room * limits.maxChunkSize := by
  have some : 0 < limits.maxChunkSize := Nat.pos_of_ne_zero positive
  unfold Limits.chunkCount
  rw [Nat.div_le_iff_le_mul some]
  omega

/-- Bytes that the container has no room for are not written in full. -/
theorem write_short (counted : Counted d) {buf : Bytes} (filled : buf ≠ [])
    (fits : buf.length + d.size ≤ d.limits.maxSize)
    (few : (d.limits.maxChunks - d.chunksVector.length) * d.limits.maxChunkSize < buf.length) :
    (d.write buf).1.succeed = false ∧ Counted (d.write buf).2 ∧ content (d.write buf).2.chunksVector =
      content d.chunksVector ++ buf.take ((d.limits.maxChunks - d.chunksVector.length) * d.limits.maxChunkSize) := by
  have word : buf.length + d.size < 2 ^ 64 := Nat.lt_of_le_of_lt fits d.limits.size_word
  have edit := insert_of_accepts false ⟨filled, word, fits⟩
  have after : (d.write buf).2 = (insert false d buf).2 := rfl
  refine ⟨?_, ?_⟩
  · have failed : (insert false d buf).1.1 = false := by
      rw [edit]
      by_cases positive : d.limits.maxChunkSize = 0
      · exact insertLoop_stuck false positive _ filled 0
      · apply insertLoop_full positive
        by_contra enough
        have held := (chunkCount_le_iff positive _ _).mp (Nat.not_lt.mp enough)
        omega
    unfold write append
    dsimp only
    rw [failed]
    rfl
  · rw [after, edit]
    exact insertLoop_stored counted _ buf 0 word

theorem write_tooLong {buf : Bytes} (filled : buf ≠ []) (long : d.limits.maxSize < buf.length + d.size) :
    (d.write buf).1.succeed = false ∧ (d.write buf).2 = d := by
  have refused : insert false d buf = ((false, 0), d) := by
    apply insert_refused false filled
    intro accepts
    have small := accepts.2.2
    omega
  unfold write append
  rw [refused]
  exact ⟨rfl, rfl⟩

theorem write_appended (counted : Counted d) {buf : Bytes} (filled : buf ≠ [])
    (fits : buf.length + d.size ≤ d.limits.maxSize)
    (enough : buf.length ≤ (d.limits.maxChunks - d.chunksVector.length) * d.limits.maxChunkSize) :
    ∃ d', d.write buf = (.all buf.length, d') ∧ Appended d buf d' := by
  have some := List.length_pos_of_ne_nil filled
  have positive : d.limits.maxChunkSize ≠ 0 := by
    intro zero
    rw [zero] at enough
    omega
  have count := (chunkCount_le_iff positive _ _).mpr enough
  have least := chunkCount_cons positive some
  obtain ⟨d', result, after⟩ := append_appended counted positive filled (Nat.add_comm _ _ ▸ fits) (by omega)
  refine ⟨d', ?_, after⟩
  rw [write, result]
  rfl

/-- The copy stores the bytes that there is room for. -/
theorem copy_taken (counted : Counted d) (pieces : List Bytes) (count : Nat) :
    ∃ written d', StreamableObject.copyToSOUsingCleanVector write pieces (.all count) d = some (written, d') ∧
      Counted d' ∧ content d'.chunksVector = content d.chunksVector ++
        pieces.flatten.take (takenBytes d.limits d.size d.chunksVector.length pieces) := by
  induction pieces generalizing d count with
  | nil => exact ⟨count, d, rfl, counted, (List.append_nil _).symm⟩
  | cons piece rest ih =>
    rw [List.flatten_cons, takenBytes]
    by_cases some : piece = []
    · subst some
      rw [StreamableObject.copyToSOUsingCleanVector, StreamableObject.writeFullStream_nil, if_pos rfl]
      exact ih counted count
    rw [if_neg some]
    -- a piece that fails is the last
    have failing : (d.write piece).1.succeed = false → StreamableObject.copyToSOUsingCleanVector write (piece :: rest)
        (.all count) d = .some (((StreamableObject.Status.all count).add
          (StreamableObject.Status.new.add (d.write piece).1)).bytesWritten, (d.write piece).2) := by
      intro failed
      rw [StreamableObject.copyToSOUsingCleanVector, StreamableObject.writeFullStream_failed some failed]
      simp [StreamableObject.Status.add, failed]
    by_cases long : d.limits.maxSize < piece.length + d.size
    · obtain ⟨failed, same⟩ := write_tooLong some long
      rw [if_pos long, failing failed, same]
      exact ⟨_, d, rfl, counted, (List.append_nil _).symm⟩
    rw [if_neg long]
    by_cases few : (d.limits.maxChunks - d.chunksVector.length) * d.limits.maxChunkSize < piece.length
    · obtain ⟨failed, counted', stored⟩ := write_short counted some (Nat.not_lt.mp long) few
      rw [if_pos few, failing failed]
      refine ⟨_, _, rfl, counted', ?_⟩
      rw [stored, List.take_append_of_le_length (Nat.le_of_lt few)]
    · obtain ⟨d1, result, after⟩ := write_appended counted some (Nat.not_lt.mp long) (Nat.not_lt.mp few)
      have status : (d.write piece).1 = .all piece.length := by rw [result]
      have next : (d.write piece).2 = d1 := by rw [result]
      have size : d1.size = d.size + piece.length := by
        have lengths := congrArg List.length after.content
        rwa [List.length_append, length_counted counted, length_counted after.counted] at lengths
      obtain ⟨written, d', copied, counted', stored⟩ := ih after.counted (count + piece.length)
      rw [after.limits, after.chunks, size] at stored
      refine ⟨written, d', ?_, counted', ?_⟩
      · rw [StreamableObject.copyToSOUsingCleanVector, StreamableObject.writeFullStream_taken some status, next]
        simp only [StreamableObject.Status.all_add_all, copied]
        simp [StreamableObject.Status.all]
      · rw [if_neg few, stored, after.content, List.append_assoc, List.take_length_add_append]

end

/-! ## What is moved -/

/-- How many bytes go to the destination of an element that begins at `pos`. -/
def moved (needle : Bytes) (removeNeedle : Bool) (pos : Nat) : Nat := if removeNeedle then pos else pos + needle.length

/-- What the source loses beside the bytes that the destination has then. -/
def discarded (needle : Bytes) (removeNeedle : Bool) : Nat := if removeNeedle then needle.length else 0

theorem moved_add_discarded (needle : Bytes) (removeNeedle : Bool) (pos : Nat) :
    moved needle removeNeedle pos + discarded needle removeNeedle = pos + needle.length := by
  cases removeNeedle <;> rfl

/-- How many bytes the destination has room for, of an element that begins at `pos`. -/
def takenOf (c d : BChunks) (needle : Bytes) (removeNeedle : Bool) (pos : Nat) : Nat :=
  takenBytes d.limits d.size d.chunksVector.length (copyChunks c.chunksVector (moved needle removeNeedle pos))

theorem takenOf_le (c d : BChunks) (needle : Bytes) (removeNeedle : Bool) (pos : Nat) :
    takenOf c d needle removeNeedle pos ≤ moved needle removeNeedle pos := by
  have least := takenBytes_le d.limits d.size d.chunksVector.length
    (copyChunks c.chunksVector (moved needle removeNeedle pos))
  rw [flatten_copyChunks, List.length_take] at least
  exact Nat.le_trans least (Nat.min_le_left _ _)

/-- The search comes to `q`, and the limit allows what is to be copied. -/
def Reaches (s needle : Bytes) (maxCopySize : Nat) (removeNeedle : Bool) (q : Nat) : Prop :=
  if maxCopySize = 0 then removeNeedle = true ∧ q = 0
  else maxCopySize ≤ s.length ∧ needle.length ≤ maxCopySize ∧ q < maxCopySize ∧ moved needle removeNeedle q ≤ maxCopySize

theorem Variant.fits {s needle : Bytes} {q : Nat} (variant : Variant s needle q) : q + needle.length ≤ s.length ∨ needle = [] := by
  have bound := variant.2.length_le
  rw [length_sighted, List.length_drop, length_sighted] at bound
  by_cases none : needle = []
  · exact .inr none
  · have some := List.length_pos_of_ne_nil none
    exact .inl (by omega)

section
variable {c d : BChunks} (countedSource : Counted c) (countedDestination : Counted d)
include countedSource

include countedDestination

/-- As many bytes of the front as there is room for. -/
theorem appendTo_taken {bytes : Nat} (le : bytes ≤ c.size) :
    ∃ copied d', c.appendTo write d bytes 0 = some (copied, d') ∧ Counted d' ∧
      content d'.chunksVector = content d.chunksVector ++ (content c.chunksVector).take
        (takenBytes d.limits d.size d.chunksVector.length (copyChunks c.chunksVector bytes)) := by
  have least := takenBytes_le d.limits d.size d.chunksVector.length (copyChunks c.chunksVector bytes)
  rw [flatten_copyChunks, List.length_take] at least
  rw [appendTo_front countedSource write d le]
  by_cases none : bytes = 0
  · have nothing : takenBytes d.limits d.size d.chunksVector.length (copyChunks c.chunksVector bytes) = 0 := by omega
    rw [if_pos none, nothing]
    exact ⟨_, d, rfl, countedDestination, (List.append_nil _).symm⟩
  · rw [if_neg none]
    obtain ⟨written, d', copied, counted, stored⟩ := copy_taken countedDestination (copyChunks c.chunksVector bytes) 0
    have start : StreamableObject.Status.new = .all 0 := rfl
    refine ⟨(true, written), d', ?_, counted, ?_⟩
    · rw [start, copied]
      rfl
    · rw [stored, flatten_copyChunks, List.take_take, Nat.min_eq_left (by omega)]

/-- What is found and allowed is moved: as much as the destination takes, and what it then holds is displaced. -/
theorem displaceUntil_reached {needle : Bytes} (filled : needle ≠ []) {maxCopySize q : Nat} {removeNeedle : Bool}
    (variant : FirstVariant (content c.chunksVector) needle q)
    (reaches : Reaches (content c.chunksVector) needle maxCopySize removeNeedle q) :
    ∃ c' d', displaceUntil c d needle maxCopySize removeNeedle = some (0, c', d') ∧
      content d'.chunksVector =
        content d.chunksVector ++ (content c.chunksVector).take (takenOf c d needle removeNeedle q) ∧
      content c'.chunksVector = (content c.chunksVector).drop
        (((content d.chunksVector).length + takenOf c d needle removeNeedle q + discarded needle removeNeedle) % 2 ^ 64) := by
  have size := length_counted countedSource
  have word : c.size < 2 ^ 64 := countedSource.word
  have some := List.length_pos_of_ne_nil filled
  have fits : q + needle.length ≤ c.size := by
    rcases variant.here.fits with fits | none
    · omega
    · exact absurd none filled
  -- the search space and the limit of the copy are one number
  have found : (Container.chunks c).find needle false 0 maxCopySize = .some (true, q) := by
    apply find_variant countedSource filled variant
    · unfold Reaches at reaches
      split at reaches <;> omega
    · unfold Reaches at reaches
      unfold spaceOf
      split
      · omega
      · rename_i limited
        rw [if_neg limited] at reaches
        exact reaches.2.1
    · unfold Reaches at reaches
      unfold spaceOf
      split
      · omega
      · rename_i limited
        rw [if_neg limited] at reaches
        exact reaches.2.2.1
  have allowed : moved needle removeNeedle q ≤ maxCopySize := by
    unfold Reaches at reaches
    split at reaches
    · obtain ⟨remove, front⟩ := reaches
      rw [moved, remove, front]
      exact Nat.zero_le _
    · exact reaches.2.2.2
  have short : moved needle removeNeedle q ≤ c.size := by
    have sum := moved_add_discarded needle removeNeedle q
    omega
  obtain ⟨copied, d', result, counted, stored⟩ := appendTo_taken countedSource countedDestination short
  have plain : overflowSum q needle.length = false := decide_eq_false (by omega)
  have copy : copyUntil c d needle maxCopySize removeNeedle = .some (0, d') := by
    unfold copyUntil
    rw [found]
    dsimp only
    rw [plain, if_neg Bool.false_ne_true]
    cases removeNeedle with
    | true =>
      have allowed' : ¬maxCopySize < q := Nat.not_lt.mpr allowed
      have result' : c.appendTo write d q 0 = .some (copied, d') := result
      rw [if_pos rfl, if_neg allowed', result']
      rfl
    | false =>
      have allowed' : ¬maxCopySize < q + needle.length := Nat.not_lt.mpr allowed
      have result' : c.appendTo write d (q + needle.length) 0 = .some (copied, d') := result
      rw [if_neg Bool.false_ne_true, if_neg allowed', result']
      rfl
  have held : d'.size = (content d.chunksVector).length + takenOf c d needle removeNeedle q := by
    have least := takenOf_le c d needle removeNeedle q
    rw [← length_counted counted, stored, List.length_append, List.length_take, Nat.min_eq_left]
    · rfl
    · exact Nat.le_trans least (by omega)
  refine ⟨(c.displace ((d'.size + discarded needle removeNeedle) % 2 ^ 64)).2, d', ?_, stored, ?_⟩
  · rw [displaceUntil, copy]
    rfl
  · rw [← held]
    exact (displace_effective countedSource _).2

omit countedDestination in
/-- What is not found, or not allowed, changes nothing. -/
theorem displaceUntil_missed (d : BChunks) {needle : Bytes} (filled : needle ≠ []) {maxCopySize : Nat} {removeNeedle : Bool}
    (missed : ∀ q, FirstVariant (content c.chunksVector) needle q →
      ¬Reaches (content c.chunksVector) needle maxCopySize removeNeedle q) :
    ∃ retr < 0, displaceUntil c d needle maxCopySize removeNeedle = some (retr, c, d) := by
  have size := length_counted countedSource
  have word : c.size < 2 ^ 64 := countedSource.word
  by_cases search : maxCopySize ≤ c.size ∧ needle.length ≤ spaceOf (content c.chunksVector) 0 maxCopySize ∧
      ∃ q < spaceOf (content c.chunksVector) 0 maxCopySize, Variant (content c.chunksVector) needle q
  case neg =>
    have none : ∃ pos, (Container.chunks c).find needle false 0 maxCopySize = some (false, pos) := by
      apply find_missed countedSource filled
      intro within enough q less variant
      exact search ⟨within, enough, q, less, variant⟩
    obtain ⟨pos, found⟩ := none
    refine ⟨-1, by decide, ?_⟩
    rw [displaceUntil, copyUntil, found]
    rfl
  obtain ⟨within, enough, some⟩ := search
  classical
  have least := Nat.find_spec some
  have earlier := fun j (less : j < Nat.find some) => Nat.find_min some less
  generalize Nat.find some = q at least earlier
  obtain ⟨less, here⟩ := least
  have variant : FirstVariant (content c.chunksVector) needle q := by
    refine ⟨here, fun j before there => ?_⟩
    exact earlier j before ⟨by omega, there⟩
  have found := find_variant countedSource filled variant within enough less
  have fits : q + needle.length ≤ c.size := by
    rcases here.fits with fits | none
    · omega
    · exact absurd none filled
  have positive := List.length_pos_of_ne_nil filled
  -- it is found, so that it is the limit of the copy that is too small
  have small : maxCopySize < moved needle removeNeedle q := by
    by_contra allowed
    apply missed q variant
    unfold Reaches
    unfold spaceOf at less enough
    split at less
    case isTrue unlimited =>
      rw [if_pos unlimited]
      unfold moved at allowed
      split at allowed
      · rename_i remove
        exact ⟨remove, by omega⟩
      · omega
    case isFalse limited =>
      rw [if_neg limited] at enough
      rw [if_neg limited]
      exact ⟨by omega, enough, less, Nat.not_lt.mp allowed⟩
  have plain : overflowSum q needle.length = false := decide_eq_false (by omega)
  refine ⟨-2, by decide, ?_⟩
  rw [displaceUntil, copyUntil, found]
  dsimp only
  rw [plain, if_neg Bool.false_ne_true]
  cases removeNeedle with
  | true =>
    have small' : maxCopySize < q := small
    rw [if_pos rfl, if_pos small']
    rfl
  | false =>
    have small' : maxCopySize < q + needle.length := small
    rw [if_neg Bool.false_ne_true, if_pos small']
    rfl

end

/-! ## One element -/

/-- The element that ends with the needle at `pos` is moved. -/
structure Moves (c d c' d' : BChunks) (needle : Bytes) (pos : Nat) (removeNeedle : Bool) : Prop where
  destination : content d'.chunksVector =
    content d.chunksVector ++ ((content c.chunksVector).take pos ++ if removeNeedle then [] else needle)
  source : content c'.chunksVector = (content c.chunksVector).drop (pos + needle.length)

/-- The first element is moved, if there is one, and else nothing. -/
def MovesElement (c d : BChunks) (needle : Bytes) (maxCopySize : Nat) (removeNeedle : Bool) : Prop :=
  ∃ retr c' d', displaceUntil c d needle maxCopySize removeNeedle = some (retr, c', d') ∧
    (∀ pos, occurrence needle (content c.chunksVector) = some pos → retr = 0 ∧ Moves c d c' d' needle pos removeNeedle) ∧
    (occurrence needle (content c.chunksVector) = none → retr < 0 ∧ c' = c ∧ d' = d)

/-- The needle's first variant is itself and within the limit, and the destination has room and is empty, or the
source ends with the needle; with no needle there is no variant that the limit allows. -/
structure Movable (c d : BChunks) (needle : Bytes) (maxCopySize : Nat) (removeNeedle : Bool) : Prop where
  present : ∀ pos, occurrence needle (content c.chunksVector) = some pos →
    FirstVariant (content c.chunksVector) needle pos ∧
      Reaches (content c.chunksVector) needle maxCopySize removeNeedle pos ∧
      takenOf c d needle removeNeedle pos = moved needle removeNeedle pos ∧
      (content d.chunksVector = [] ∨ pos + needle.length = (content c.chunksVector).length ∧
        (content d.chunksVector).length + (content c.chunksVector).length < 2 ^ 64)
  absent : occurrence needle (content c.chunksVector) = none → ∀ q, FirstVariant (content c.chunksVector) needle q →
    ¬Reaches (content c.chunksVector) needle maxCopySize removeNeedle q

theorem variant_of_occurrence {s needle : Bytes} (filled : needle ≠ []) {pos : Nat} (found : occurrence needle s = some pos) :
    Variant s needle pos := by
  obtain ⟨less, here, -⟩ := occurrence_eq_some_iff.mp found
  obtain ⟨first, rest, rfl⟩ := List.exists_cons_of_ne_nil filled
  constructor
  · rw [List.getElem?_eq_getElem less, head_of_starts here less]
    rfl
  · unfold sighted
    rw [if_neg Bool.false_ne_true, if_neg Bool.false_ne_true, ← List.map_drop]
    exact List.IsPrefix.map tolower here

/-- What is moved of an element is what is before the needle, with the needle or without it. -/
theorem take_moved {s needle : Bytes} {pos : Nat} (found : occurrence needle s = some pos) (removeNeedle : Bool) :
    s.take (moved needle removeNeedle pos) = s.take pos ++ if removeNeedle then [] else needle := by
  cases removeNeedle with
  | true => exact (List.append_nil _).symm
  | false =>
    obtain ⟨-, here, -⟩ := occurrence_eq_some_iff.mp found
    have after : (s.drop pos).take needle.length = needle := (List.prefix_iff_eq_take.mp here).symm
    rw [moved, if_neg Bool.false_ne_true, if_neg Bool.false_ne_true, List.take_add, after]

theorem moved_lt (needle : Bytes) (removeNeedle : Bool) {q pos : Nat} (less : q < pos) :
    moved needle removeNeedle q < moved needle removeNeedle pos := by
  unfold moved
  split <;> omega

/-- Displacing the destination's bytes with the element takes away just the element. -/
theorem drop_eq_iff {s : Bytes} {before ends : Nat} (word : before < 2 ^ 64) (small : s.length < 2 ^ 64)
    (some : 0 < ends) (le : ends ≤ s.length) :
    s.drop ((before + ends) % 2 ^ 64) = s.drop ends ↔ before = 0 ∨ ends = s.length ∧ before + s.length < 2 ^ 64 := by
  have lengths : s.drop ((before + ends) % 2 ^ 64) = s.drop ends ↔
      s.length - (before + ends) % 2 ^ 64 = s.length - ends := by
    constructor
    · intro same
      have counts := congrArg List.length same
      rwa [List.length_drop, List.length_drop] at counts
    · intro same
      rcases Nat.lt_or_ge ((before + ends) % 2 ^ 64) s.length with less | more
      · have equal : (before + ends) % 2 ^ 64 = ends := by omega
        rw [equal]
      · rw [List.drop_eq_nil_of_le more, List.drop_eq_nil_of_le (by omega)]
  rw [lengths]
  rcases Nat.lt_or_ge (before + ends) (2 ^ 64) with plain | wraps
  · rw [Nat.mod_eq_of_lt plain]
    omega
  · have wrapped : (before + ends) % 2 ^ 64 = before + ends - 2 ^ 64 := by
      rw [Nat.mod_eq_sub_mod wraps, Nat.mod_eq_of_lt (by omega)]
    rw [wrapped]
    omega

section
variable {c d : BChunks} (countedSource : Counted c) (countedDestination : Counted d)
  {needle : Bytes} (filled : needle ≠ []) (maxCopySize : Nat) (removeNeedle : Bool)
include countedSource countedDestination filled

theorem movesElement_iff :
    MovesElement c d needle maxCopySize removeNeedle ↔ Movable c d needle maxCopySize removeNeedle := by
  have sizeSource := length_counted countedSource
  have wordSource : c.size < 2 ^ 64 := countedSource.word
  have sizeDestination := length_counted countedDestination
  have wordDestination : d.size < 2 ^ 64 := countedDestination.word
  have positive := List.length_pos_of_ne_nil filled
  constructor
  · rintro ⟨retr, c', d', result, present, absent⟩
    constructor
    · intro pos found
      obtain ⟨zero, moves⟩ := present pos found
      have variant := variant_of_occurrence filled found
      have ends := occurrence_end_le found
      have sum := moved_add_discarded needle removeNeedle pos
      -- it returned zero, so some variant was reached
      have reached : ∃ q, FirstVariant (content c.chunksVector) needle q ∧
          Reaches (content c.chunksVector) needle maxCopySize removeNeedle q := by
        by_contra none
        have missed : ∃ retr < 0, displaceUntil c d needle maxCopySize removeNeedle = some (retr, c, d) :=
          displaceUntil_missed countedSource d filled fun q first reaches => none ⟨q, first, reaches⟩
        obtain ⟨other, negative, missed⟩ := missed
        rw [missed] at result
        cases result
        omega
      obtain ⟨q, first, reaches⟩ := reached
      obtain ⟨c2, d2, moved', stored, left⟩ :=
        displaceUntil_reached countedSource countedDestination filled first reaches
      rw [moved'] at result
      cases result
      -- the same number of bytes has come to the destination
      have near : q ≤ pos := by
        by_contra far
        exact first.first pos (Nat.lt_of_not_le far) variant
      have least := takenOf_le c d needle removeNeedle q
      have bound : moved needle removeNeedle q ≤ moved needle removeNeedle pos := by
        rcases Nat.lt_or_eq_of_le near with earlier | same
        · exact Nat.le_of_lt (moved_lt needle removeNeedle earlier)
        · rw [same]
      have taken : takenOf c d needle removeNeedle q = moved needle removeNeedle pos := by
        have whole := congrArg List.length moves.destination
        rw [stored, ← take_moved found, List.length_append, List.length_append, List.length_take, List.length_take,
          Nat.min_eq_left (by omega), Nat.min_eq_left (by omega)] at whole
        omega
      have same : q = pos := by
        rcases Nat.lt_or_eq_of_le near with earlier | same
        · have smaller := moved_lt needle removeNeedle earlier
          omega
        · exact same
      subst same
      refine ⟨first, reaches, taken, ?_⟩
      rw [moves.source, taken, Nat.add_assoc, sum] at left
      have place := (drop_eq_iff (by omega) (by omega) (by omega) ends).mp left.symm
      rwa [List.length_eq_zero_iff] at place
    · intro none q first reaches
      obtain ⟨c2, d2, moved', -, -⟩ := displaceUntil_reached countedSource countedDestination filled first reaches
      rw [moved'] at result
      cases result
      exact absurd (absent none).1 (by decide)
  · rintro ⟨present, absent⟩
    cases found : occurrence needle (content c.chunksVector) with
    | none =>
      obtain ⟨retr, negative, result⟩ := displaceUntil_missed countedSource d filled (absent found)
      refine ⟨retr, c, d, result, ?_, fun _ => ⟨negative, rfl, rfl⟩⟩
      intro pos other
      cases found.symm.trans other
    | some pos =>
      obtain ⟨first, reaches, taken, place⟩ := present pos found
      have ends := occurrence_end_le found
      obtain ⟨c', d', result, stored, left⟩ := displaceUntil_reached countedSource countedDestination filled first reaches
      refine ⟨0, c', d', result, ?_, ?_⟩
      · intro other same
        cases found.symm.trans same
        refine ⟨rfl, ?_, ?_⟩
        · rw [stored, taken, take_moved found]
        · rw [← List.length_eq_zero_iff] at place
          rw [left, taken, Nat.add_assoc, moved_add_discarded]
          exact (drop_eq_iff (by omega) (by omega) (by omega) ends).mpr place
      · intro none
        cases found.symm.trans none

end

/-! ## With a list of needles -/

/-- Some needle of the list occurs there, and none before. -/
structure EarliestAt (needles : List Bytes) (s : Bytes) (pos : Nat) : Prop where
  here : ∃ needle ∈ needles, occurrence needle s = some pos
  first : ∀ needle ∈ needles, ∀ other, occurrence needle s = some other → pos ≤ other

/-- The element that ends with the needle that occurs earliest is moved, if one occurs, and else nothing. -/
def MovesEarliest (c d : BChunks) (needles : List Bytes) (maxCopySize : Nat) (removeNeedle : Bool) : Prop :=
  ∃ retr c' d', displaceUntilAny c d maxCopySize removeNeedle needles = some (retr, c', d') ∧
    (∀ pos, EarliestAt needles (content c.chunksVector) pos → retr = 0 ∧ ∃ needle ∈ needles,
      occurrence needle (content c.chunksVector) = some pos ∧ Moves c d c' d' needle pos removeNeedle) ∧
    ((∀ needle ∈ needles, occurrence needle (content c.chunksVector) = none) → retr < 0 ∧ c' = c ∧ d' = d)

/-- The first of the list that has a variant which the limit allows. -/
structure Chosen (s : Bytes) (maxCopySize : Nat) (removeNeedle : Bool) (needles : List Bytes) (needle : Bytes) (q : Nat) :
    Prop where
  variant : FirstVariant s needle q
  reaches : Reaches s needle maxCopySize removeNeedle q
  listed : ∃ before after, needles = before ++ needle :: after ∧
    ∀ other ∈ before, ∀ p, FirstVariant s other p → ¬Reaches s other maxCopySize removeNeedle p

/-- What the chosen needle moves is the element of the one that occurs earliest. -/
structure EarliestMovable (c d : BChunks) (needles : List Bytes) (maxCopySize : Nat) (removeNeedle : Bool) : Prop where
  present : ∀ pos, EarliestAt needles (content c.chunksVector) pos → ∃ needle ∈ needles,
    occurrence needle (content c.chunksVector) = some pos ∧
      ∃ chosen q, Chosen (content c.chunksVector) maxCopySize removeNeedle needles chosen q ∧
        takenOf c d chosen removeNeedle q = moved needle removeNeedle pos ∧
        min (content c.chunksVector).length (((content d.chunksVector).length + takenOf c d chosen removeNeedle q +
          discarded chosen removeNeedle) % 2 ^ 64) = pos + needle.length
  absent : (∀ needle ∈ needles, occurrence needle (content c.chunksVector) = none) → ∀ needle ∈ needles, ∀ q,
    FirstVariant (content c.chunksVector) needle q → ¬Reaches (content c.chunksVector) needle maxCopySize removeNeedle q

theorem chosen_or (s : Bytes) (maxCopySize : Nat) (removeNeedle : Bool) (needles : List Bytes) :
    (∃ needle q, Chosen s maxCopySize removeNeedle needles needle q) ∨
      ∀ needle ∈ needles, ∀ q, FirstVariant s needle q → ¬Reaches s needle maxCopySize removeNeedle q := by
  induction needles with
  | nil => exact .inr (List.forall_mem_nil _)
  | cons head rest ih =>
    by_cases here : ∃ q, FirstVariant s head q ∧ Reaches s head maxCopySize removeNeedle q
    · obtain ⟨q, variant, reaches⟩ := here
      exact .inl ⟨head, q, variant, reaches, [], rest, rfl, List.forall_mem_nil _⟩
    have skipped : ∀ p, FirstVariant s head p → ¬Reaches s head maxCopySize removeNeedle p :=
      fun p variant reaches => here ⟨p, variant, reaches⟩
    rcases ih with ⟨needle, q, chosen⟩ | none
    · obtain ⟨before, after, split, earlier⟩ := chosen.listed
      refine .inl ⟨needle, q, chosen.variant, chosen.reaches, head :: before, after, ?_, ?_⟩
      · rw [split]
        rfl
      · exact List.forall_mem_cons.mpr ⟨skipped, earlier⟩
    · exact .inr (List.forall_mem_cons.mpr ⟨skipped, none⟩)

theorem drop_eq_drop_iff {s : Bytes} {n ends : Nat} (le : ends ≤ s.length) :
    s.drop n = s.drop ends ↔ min s.length n = ends := by
  constructor
  · intro same
    have counts := congrArg List.length same
    rw [List.length_drop, List.length_drop] at counts
    omega
  · intro same
    rcases Nat.lt_or_ge n s.length with less | more
    · have equal : n = ends := by omega
      rw [equal]
    · rw [List.drop_eq_nil_of_le more, List.drop_eq_nil_of_le (by omega)]

section
variable {c d : BChunks} (countedSource : Counted c) (countedDestination : Counted d) {needles : List Bytes}
  (filled : ∀ needle ∈ needles, needle ≠ []) {maxCopySize : Nat} {removeNeedle : Bool}
include countedSource filled

/-- Needles that are not reached are tried in vain. -/
theorem displaceUntilAny_missed (d : BChunks) (missed : ∀ needle ∈ needles, ∀ q,
    FirstVariant (content c.chunksVector) needle q → ¬Reaches (content c.chunksVector) needle maxCopySize removeNeedle q)
    (rest : List Bytes) :
    displaceUntilAny c d maxCopySize removeNeedle (needles ++ rest) =
      displaceUntilAny c d maxCopySize removeNeedle rest := by
  induction needles with
  | nil => rfl
  | cons needle others ih =>
    obtain ⟨some, filled'⟩ := List.forall_mem_cons.mp filled
    obtain ⟨none, missed'⟩ := List.forall_mem_cons.mp missed
    obtain ⟨retr, negative, result⟩ := displaceUntil_missed countedSource d some none
    rw [List.cons_append, displaceUntilAny, result]
    dsimp only
    rw [if_neg (by omega)]
    exact ih filled' missed'

include countedDestination

theorem displaceUntilAny_chosen {needle : Bytes} {q : Nat}
    (chosen : Chosen (content c.chunksVector) maxCopySize removeNeedle needles needle q) :
    ∃ c' d', displaceUntilAny c d maxCopySize removeNeedle needles = some (0, c', d') ∧
      content d'.chunksVector =
        content d.chunksVector ++ (content c.chunksVector).take (takenOf c d needle removeNeedle q) ∧
      content c'.chunksVector = (content c.chunksVector).drop
        (((content d.chunksVector).length + takenOf c d needle removeNeedle q + discarded needle removeNeedle) % 2 ^ 64) := by
  obtain ⟨before, after, split, earlier⟩ := chosen.listed
  have some : needle ≠ [] := filled needle (split ▸ List.mem_append_right _ (.head _))
  obtain ⟨c', d', result, stored, left⟩ :=
    displaceUntil_reached countedSource countedDestination some chosen.variant chosen.reaches
  refine ⟨c', d', ?_, stored, left⟩
  have front : ∀ other ∈ before, other ≠ [] := fun other member => filled other (split ▸ List.mem_append_left _ member)
  rw [split, displaceUntilAny_missed countedSource front d earlier, displaceUntilAny, result]
  rfl

theorem movesEarliest_iff : MovesEarliest c d needles maxCopySize removeNeedle ↔
    EarliestMovable c d needles maxCopySize removeNeedle := by
  constructor
  · rintro ⟨retr, c', d', result, present, absent⟩
    constructor
    · intro pos earliest
      obtain ⟨zero, needle, member, found, moves⟩ := present pos earliest
      have ends := occurrence_end_le found
      refine ⟨needle, member, found, ?_⟩
      rcases chosen_or (content c.chunksVector) maxCopySize removeNeedle needles with ⟨chosen, q, first⟩ | none
      · obtain ⟨c2, d2, moved', stored, left⟩ :=
          displaceUntilAny_chosen countedSource countedDestination filled first
        rw [moved'] at result
        cases result
        refine ⟨chosen, q, first, ?_, ?_⟩
        · have sum := moved_add_discarded needle removeNeedle pos
          have least := takenOf_le c d chosen removeNeedle q
          have sum' := moved_add_discarded chosen removeNeedle q
          have some : chosen ≠ [] := by
            obtain ⟨before, after, split, -⟩ := first.listed
            exact filled chosen (split ▸ List.mem_append_right _ (.head _))
          have inside : q + chosen.length ≤ (content c.chunksVector).length := by
            rcases first.variant.here.fits with fits | none
            · exact fits
            · exact absurd none some
          have whole := congrArg List.length moves.destination
          rw [stored, ← take_moved found, List.length_append, List.length_append, List.length_take, List.length_take,
            Nat.min_eq_left (by omega), Nat.min_eq_left (by omega)] at whole
          omega
        · rw [moves.source] at left
          exact (drop_eq_drop_iff ends).mp left.symm
      · have none' := displaceUntilAny_missed countedSource filled d none []
        rw [List.append_nil, result] at none'
        have code : retr = -1 := congrArg Prod.fst (Option.some.inj none')
        omega
    · intro none
      rcases chosen_or (content c.chunksVector) maxCopySize removeNeedle needles with ⟨chosen, q, first⟩ | missed
      · obtain ⟨c2, d2, moved', -, -⟩ := displaceUntilAny_chosen countedSource countedDestination filled first
        rw [moved'] at result
        cases result
        exact absurd (absent none).1 (by decide)
      · exact missed
  · rintro ⟨present, absent⟩
    by_cases some : ∃ pos, EarliestAt needles (content c.chunksVector) pos
    · obtain ⟨pos, earliest⟩ := some
      obtain ⟨needle, member, found, chosen, q, first, taken, place⟩ := present pos earliest
      have ends := occurrence_end_le found
      obtain ⟨c', d', result, stored, left⟩ := displaceUntilAny_chosen countedSource countedDestination filled first
      refine ⟨0, c', d', result, ?_, ?_⟩
      · intro other same
        have equal : other = pos := by
          obtain ⟨one, listed, there⟩ := same.here
          exact Nat.le_antisymm (same.first needle member pos found) (earliest.first one listed other there)
        rw [equal]
        refine ⟨rfl, needle, member, found, ?_, ?_⟩
        · rw [stored, taken, take_moved found]
        · rw [left]
          exact (drop_eq_drop_iff ends).mpr place
      · intro none
        rw [none needle member] at found
        cases found
    · -- without an earliest occurrence there is none
      have none : ∀ needle ∈ needles, occurrence needle (content c.chunksVector) = none := by
        classical
        by_contra other
        have occurs : ∃ pos, ∃ needle ∈ needles, occurrence needle (content c.chunksVector) = .some pos := by
          by_contra never
          apply other
          intro needle member
          cases found : occurrence needle (content c.chunksVector) with
          | none => rfl
          | some pos => exact absurd ⟨pos, needle, member, found⟩ never
        refine some ⟨Nat.find occurs, Nat.find_spec occurs, ?_⟩
        intro needle member p found
        exact Nat.find_le ⟨needle, member, found⟩
      have result := displaceUntilAny_missed countedSource filled d (absent none) []
      rw [List.append_nil] at result
      refine ⟨-1, c, d, result, ?_, fun _ => ⟨by decide, rfl, rfl⟩⟩
      intro pos earliest
      exact absurd ⟨pos, earliest⟩ some

end

/-- With one needle and with a list of them, what `displaceUntil` does is to move an element in these cases only. -/
theorem displaces_iff {c d : BChunks} (countedSource : Counted c) (countedDestination : Counted d) {needle : Bytes}
    (filled : needle ≠ []) {needles : List Bytes} (allFilled : ∀ needle ∈ needles, needle ≠ []) (maxCopySize : Nat)
    (removeNeedle : Bool) :
    (MovesElement c d needle maxCopySize removeNeedle ↔ Movable c d needle maxCopySize removeNeedle) ∧
      (MovesEarliest c d needles maxCopySize removeNeedle ↔ EarliestMovable c d needles maxCopySize removeNeedle) :=
  ⟨movesElement_iff countedSource countedDestination filled maxCopySize removeNeedle,
    movesEarliest_iff countedSource countedDestination allFilled⟩

/-- Three bytes, of which the second is the needle. -/
def threeBytes : BChunks := ⟨[⟨[97, 10, 98], 0⟩], 3, .default⟩

theorem counted_threeBytes : Counted threeBytes := ⟨rfl, by decide⟩

/-- An element goes to an empty container. -/
theorem displaces_iff_empty :
    (MovesElement threeBytes (empty .default) [10] 3 true ↔ Movable threeBytes (empty .default) [10] 3 true) ∧
      (MovesEarliest threeBytes (empty .default) [[10]] 3 true ↔
        EarliestMovable threeBytes (empty .default) [[10]] 3 true) :=
  displaces_iff counted_threeBytes ⟨rfl, by decide⟩ (by decide) (by decide) 3 true

/-- Where the destination holds a byte, the source loses one more than was moved. -/
theorem not_displaces :
    ¬∀ c d needle maxCopySize removeNeedle, Counted c → Counted d → needle ≠ [] →
      MovesElement c d needle maxCopySize removeNeedle := by
  intro all
  have movable := (movesElement_iff counted_threeBytes (d := ⟨[⟨[99], 0⟩], 1, .default⟩) ⟨rfl, by decide⟩
    (by decide) 3 true).mp (all _ _ [10] 3 true counted_threeBytes ⟨rfl, by decide⟩ (by decide))
  rcases (movable.present 1 (by decide)).2.2.2 with none | ends
  · exact absurd none (by decide)
  · exact absurd ends.1 (by decide)

end Mantids.Memory.BChunks
