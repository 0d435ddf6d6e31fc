import Mantids.Library.Occurrence
import Mantids.Memory.Chunks

/-! Looking for bytes in a container (`B_Base::find` over `B_Chunks`), which walks the
chunks by their sizes and asks no offset. -/

set_option autoImplicit false

namespace Mantids.Memory.BChunks

/-! ## A character -/

def isLetter (c : UInt8) : Bool := (65 ≤ c && c ≤ 90) || (97 ≤ c && c ≤ 122)

def toupper (c : UInt8) : UInt8 := if 97 ≤ c ∧ c ≤ 122 then c - 32 else c

def tolower (c : UInt8) : UInt8 := if 65 ≤ c ∧ c ≤ 90 then c + 32 else c

def memchr (data : Bytes) (c : UInt8) : Option Nat := data.findIdx? (· = c)

/-- The nearer of the two positions. -/
def nearest : Option Nat → Option Nat → Option Nat
  | some upper, some lower => if upper ≤ lower then some upper else some lower
  | some upper, none => some upper
  | none, lower => lower

/-- The parsers search with the default `caseSensitive`, which takes a letter in both
cases; the comparison that follows is exact. -/
def memchrCase (data : Bytes) (c : UInt8) : Option Nat :=
  if isLetter c then nearest (memchr data (toupper c)) (memchr data (tolower c)) else memchr data c

/-- The chunk loop of `findChar`. -/
def findCharLoop (c : UInt8) :
    List BinaryContainerChunk → (offset searchSpace retpos : Nat) → Option Nat
  | [], _, _, _ => none
  | originalChunk :: rest, offset, searchSpace, retpos =>
    if originalChunk.size < offset then
      findCharLoop c rest (offset - originalChunk.size) searchSpace (retpos + originalChunk.size)
    else
      let currentData := originalChunk.data.drop offset
      match memchrCase (currentData.take searchSpace) c with
      | some pos => some (pos + offset + retpos)
      | none =>
        if currentData.length < searchSpace then
          findCharLoop c rest 0 (searchSpace - currentData.length) (retpos + originalChunk.size)
        else none

def findChar (container : BChunks) (c : UInt8) (offset searchSpace : Nat) : Option Nat :=
  if overflowSum offset searchSpace then none
  else if container.size < offset ∨ container.size < offset + searchSpace then none
  else findCharLoop c container.chunksVector offset searchSpace 0

/-! ## A comparison -/

/-- The chunk loop of `compare2`. -/
def compareLoop : List BinaryContainerChunk → (offset : Nat) → Bytes → Bool
  | [], _, buf => buf = []
  | i :: rest, offset, buf =>
    if i.size < offset then compareLoop rest (offset - i.size) buf
    else
      let currentData := i.data.drop offset
      let currentChunkSize := if currentData.length < buf.length then currentData.length else buf.length
      if currentData.take currentChunkSize ≠ buf.take currentChunkSize then false
      else if buf.drop currentChunkSize = [] then true
      else compareLoop rest 0 (buf.drop currentChunkSize)

def compare2 (container : BChunks) (buf : Bytes) (offset : Nat) : Bool :=
  if overflowSum offset buf.length then false
  else if buf = [] then true
  else if container.size < offset + buf.length then false
  else compareLoop container.chunksVector offset buf

/-! ## A needle -/

/-- The loop of `find`: from one candidate for the first character to the next. -/
def findLoop (container : BChunks) (first : UInt8) (needle : Bytes) :
    (fuel currentOffset searchSpace : Nat) → Option Nat
  | 0, _, _ => none
  | fuel + 1, currentOffset, searchSpace =>
    match findChar container first currentOffset searchSpace with
    | none => none
    | some pos =>
      let searchSpace := searchSpace - (pos - currentOffset)
      if compare2 container needle pos then some pos
      else if searchSpace = 0 then none
      else findLoop container first needle fuel (pos + 1) (searchSpace - 1)

/-- `find` over the whole container. -/
def find (container : BChunks) (needle : Bytes) : Option Nat :=
  if container.size = 0 then none
  else if container.size < needle.length then none
  else
    match needle with
    | [] => some 0
    | first :: _ => findLoop container first needle (container.size + 1) 0 container.size

/-- `find` with a list of needles: the first of the list that is in the container. -/
def findAny (container : BChunks) : List Bytes → Option (Nat × Bytes)
  | [] => none
  | needle :: needles =>
    match find container needle with
    | some pos => some (pos, needle)
    | none => findAny container needles

/-! ## What the loops find -/

/-- What `findChar` takes for the character. -/
def candidate (c b : UInt8) : Bool :=
  if isLetter c then b = toupper c || b = tolower c else b = c

theorem candidate_self (c : UInt8) : candidate c c = true := by
  unfold candidate isLetter toupper tolower
  by_cases lower : 97 ≤ c ∧ c ≤ 122
  · have notUpper : ¬(65 ≤ c ∧ c ≤ 90) := by
      rintro ⟨-, below⟩
      have above := lower.1
      rw [UInt8.le_iff_toNat_le] at below above
      exact absurd (Nat.le_trans above below) (by decide)
    simp [lower, notUpper]
  · by_cases upper : 65 ≤ c ∧ c ≤ 90
    · simp [lower, upper]
    · simp [lower, upper]

theorem nearest_findIdx? (p q : UInt8 → Bool) (data : Bytes) :
    nearest (data.findIdx? p) (data.findIdx? q) = data.findIdx? fun b => p b || q b := by
  induction data with
  | nil => rfl
  | cons b rest ih =>
    simp only [List.findIdx?_cons]
    by_cases first : p b = true <;> by_cases second : q b = true
    · simp [first, second, nearest]
    · cases rest.findIdx? q <;> simp [first, second, nearest]
    · cases rest.findIdx? p <;> simp [first, second, nearest]
    · simp only [first, second, ← ih]
      cases rest.findIdx? p <;> cases rest.findIdx? q <;> simp [nearest]
      split <;> rfl

theorem memchrCase_eq (data : Bytes) (c : UInt8) : memchrCase data c = data.findIdx? (candidate c) := by
  unfold memchrCase memchr candidate
  split
  · exact nearest_findIdx? _ _ data
  · rfl

theorem findCharLoop_eq (c : UInt8) (chunks : List BinaryContainerChunk) {offset : Nat} (retpos : Nat)
    (le : offset ≤ totalSize chunks) :
    findCharLoop c chunks offset (totalSize chunks - offset) retpos =
      (((content chunks).drop offset).findIdx? (candidate c)).map (· + offset + retpos) := by
  induction chunks generalizing offset retpos with
  | nil => simp [findCharLoop]
  | cons chunk rest ih =>
    rw [totalSize_cons] at le
    rw [findCharLoop, content_cons, totalSize_cons]
    split
    · rename_i beyond
      have left : chunk.size + totalSize rest - offset = totalSize rest - (offset - chunk.size) := by omega
      rw [left, ih _ (by omega), List.drop_append, List.drop_eq_nil_of_le (Nat.le_of_lt beyond), List.nil_append]
      congr 1
      funext pos
      show pos + (offset - chunk.size) + (retpos + chunk.size) = pos + offset + retpos
      omega
    · rename_i inside
      have length : (chunk.data.drop offset).length = chunk.size - offset := List.length_drop
      rw [List.drop_append_of_le_length (Nat.le_of_not_lt inside), List.findIdx?_append]
      simp only [memchrCase_eq]
      rw [List.take_of_length_le (by omega)]
      cases here : (chunk.data.drop offset).findIdx? (candidate c) with
      | some pos => simp
      | none =>
        simp only [Option.none_or]
        split
        · have left : chunk.size + totalSize rest - offset - (chunk.data.drop offset).length = totalSize rest - 0 := by
            omega
          rw [left, ih _ (Nat.zero_le _), List.drop_zero, Option.map_map]
          congr 1
          funext pos
          show pos + 0 + (retpos + chunk.size) = pos + (chunk.data.drop offset).length + offset + retpos
          omega
        · have empty : content rest = [] := by
            apply List.eq_nil_of_length_eq_zero
            rw [length_content]
            omega
          simp [empty]

theorem compareLoop_eq (chunks : List BinaryContainerChunk) {offset : Nat} {buf : Bytes}
    (fits : offset + buf.length ≤ totalSize chunks) :
    compareLoop chunks offset buf = decide (buf <+: (content chunks).drop offset) := by
  induction chunks generalizing offset buf with
  | nil =>
    rw [totalSize_nil] at fits
    have empty : buf = [] := List.eq_nil_of_length_eq_zero (by omega)
    simp [compareLoop, empty]
  | cons chunk rest ih =>
    rw [totalSize_cons] at fits
    rw [compareLoop, content_cons]
    split
    · rename_i beyond
      rw [ih (by omega), List.drop_append, List.drop_eq_nil_of_le (Nat.le_of_lt beyond), List.nil_append]
      rfl
    · rename_i inside
      have length : (chunk.data.drop offset).length = chunk.size - offset := List.length_drop
      rw [List.drop_append_of_le_length (Nat.le_of_not_lt inside)]
      generalize chunk.data.drop offset = current at length
      simp only
      by_cases longer : current.length < buf.length
      · rw [if_pos longer, List.take_length]
        by_cases same : current = buf.take current.length
        · have left : buf.drop current.length ≠ [] := by
            rw [ne_eq, List.drop_eq_nil_iff]
            omega
          have split : buf = current ++ buf.drop current.length := by
            conv_lhs => rw [← List.take_append_drop current.length buf, ← same]
          have short : 0 + (buf.drop current.length).length ≤ totalSize rest := by
            rw [List.length_drop]
            omega
          rw [if_neg (not_not_intro same), if_neg left, ih short, List.drop_zero, decide_eq_decide]
          conv_rhs => rw [split]
          rw [List.prefix_append_right_inj]
        · rw [if_pos same]
          symm
          apply decide_eq_false
          intro starts
          apply same
          have front := List.prefix_of_prefix_length_le (List.prefix_append current _) starts (Nat.le_of_lt longer)
          exact (List.prefix_iff_eq_take.mp front)
      · rw [if_neg longer, List.take_length, List.drop_length]
        by_cases same : current.take buf.length = buf
        · rw [if_neg (not_not_intro same), if_pos rfl]
          symm
          apply decide_eq_true
          exact (same ▸ List.take_prefix buf.length current).trans (List.prefix_append current _)
        · rw [if_pos same]
          symm
          apply decide_eq_false
          intro starts
          apply same
          rw [List.prefix_iff_eq_take, List.take_append_of_le_length (Nat.le_of_not_lt longer)] at starts
          exact starts.symm

/-! ## What `find` finds -/

theorem head_of_starts {first : UInt8} {needle s : Bytes} {i : Nat} (starts : first :: needle <+: s.drop i)
    (less : i < s.length) : s[i] = first := by
  obtain ⟨rest, same⟩ := starts
  have head : (s.drop i)[0]? = some first := by rw [← same]; rfl
  rw [List.getElem?_drop, Nat.add_zero, List.getElem?_eq_getElem less] at head
  exact Option.some.inj head

section
variable {container : BChunks} (counted : Counted container)
include counted

theorem findChar_eq (c : UInt8) {offset : Nat} (le : offset ≤ container.containerBytes) :
    findChar container c offset (container.containerBytes - offset) =
      (((content container.chunksVector).drop offset).findIdx? (candidate c)).map (· + offset) := by
  have sum : offset + (container.containerBytes - offset) = container.containerBytes := by omega
  have fits : overflowSum offset (container.containerBytes - offset) = false := by
    apply decide_eq_false
    have word := counted.word
    omega
  unfold findChar size
  rw [fits, if_neg Bool.false_ne_true, if_neg (by omega), counted.bytes]
  exact findCharLoop_eq c container.chunksVector 0 (counted.bytes ▸ le)

theorem compare2_eq {buf : Bytes} (filled : buf ≠ []) {offset : Nat} (le : offset ≤ container.containerBytes) :
    compare2 container buf offset = decide (buf <+: (content container.chunksVector).drop offset) := by
  have length : ((content container.chunksVector).drop offset).length = container.containerBytes - offset := by
    rw [counted.length_drop]
  have tooLong : container.containerBytes < offset + buf.length →
      decide (buf <+: (content container.chunksVector).drop offset) = false := by
    intro long
    apply decide_eq_false
    intro starts
    have short := starts.length_le
    omega
  unfold compare2 size
  by_cases beyond : overflowSum offset buf.length = true
  · rw [if_pos beyond, tooLong]
    have wraps := of_decide_eq_true beyond
    have word := counted.word
    omega
  · rw [if_neg beyond, if_neg filled]
    by_cases long : container.containerBytes < offset + buf.length
    · rw [if_pos long, tooLong long]
    · rw [if_neg long, compareLoop_eq]
      have bytes := counted.bytes
      omega

theorem findLoop_eq {first : UInt8} {needle : Bytes} (fuel : Nat) {offset : Nat}
    (le : offset ≤ container.containerBytes) (enough : container.containerBytes - offset < fuel) :
    findLoop container first (first :: needle) fuel offset (container.containerBytes - offset) =
      (Library.occurrence (first :: needle) ((content container.chunksVector).drop offset)).map (· + offset) := by
  induction fuel generalizing offset with
  | zero => omega
  | succ fuel ih =>
    rw [findLoop, findChar_eq counted first le]
    have length : ((content container.chunksVector).drop offset).length = container.containerBytes - offset := by
      rw [counted.length_drop]
    cases found : ((content container.chunksVector).drop offset).findIdx? (candidate first) with
    | none =>
      have missing : Library.occurrence (first :: needle) ((content container.chunksVector).drop offset) = none := by
        apply Library.occurrence_eq_none_iff.mpr
        intro i less starts
        have absent := List.findIdx?_eq_none_iff.mp found _ (List.getElem_mem less)
        rw [head_of_starts starts less, candidate_self] at absent
        contradiction
      rw [missing]
      rfl
    | some i =>
      obtain ⟨less, here, before⟩ := List.findIdx?_eq_some_iff_getElem.mp found
      have skip : Library.occurrence (first :: needle) ((content container.chunksVector).drop offset) =
          (Library.occurrence (first :: needle) ((content container.chunksVector).drop (offset + i))).map
            (· + i) := by
        rw [Library.occurrence_drop (k := i), List.drop_drop]
        intro j earlier starts
        have absent := before j earlier
        rw [head_of_starts starts (Nat.lt_trans earlier less), candidate_self] at absent
        exact absent rfl
      simp only [Option.map_some]
      rw [compare2_eq counted (List.cons_ne_nil _ _) (by omega), skip, Nat.add_comm i offset]
      have filled : (content container.chunksVector).drop (offset + i) ≠ [] := by
        rw [ne_eq, List.drop_eq_nil_iff, length_content, ← counted.bytes]
        omega
      obtain ⟨b, rest, split⟩ := List.exists_cons_of_ne_nil filled
      have next : (content container.chunksVector).drop (offset + i + 1) = rest := by
        rw [← List.drop_drop, split]
        rfl
      rw [split]
      by_cases starts : first :: needle <+: b :: rest
      · rw [if_pos (decide_eq_true starts), Library.occurrence, if_pos starts, Option.map_some, Option.map_some,
          Nat.zero_add, Nat.add_comm i offset]
      · have left : container.containerBytes - offset - (offset + i - offset) - 1 =
            container.containerBytes - (offset + i + 1) := by omega
        rw [if_neg (by simpa using starts), if_neg (by omega), left, ih (by omega) (by omega), next,
          Library.occurrence, if_neg starts, Option.map_map, Option.map_map]
        congr 1
        funext pos
        show pos + (offset + i + 1) = pos + 1 + i + offset
        omega

theorem find_eq (needle : Bytes) :
    find container needle = Library.occurrence needle (content container.chunksVector) := by
  have length : (content container.chunksVector).length = container.containerBytes := by
    rw [length_content, counted.bytes]
  unfold find size
  by_cases empty : container.containerBytes = 0
  · rw [if_pos empty, List.eq_nil_of_length_eq_zero (length.trans empty)]
    rfl
  · rw [if_neg empty]
    by_cases short : container.containerBytes < needle.length
    · rw [if_pos short]
      symm
      apply Library.occurrence_eq_none_iff.mpr
      intro i _ starts
      have fits := starts.length_le
      rw [List.length_drop] at fits
      omega
    · rw [if_neg short]
      cases needle with
      | nil =>
        symm
        apply Library.occurrence_eq_some_iff.mpr
        exact ⟨by omega, List.nil_prefix, fun j less => absurd less (Nat.not_lt_zero j)⟩
      | cons first needle =>
        have all : findLoop container first (first :: needle) (container.containerBytes + 1) 0
            (container.containerBytes - 0) = _ := findLoop_eq counted _ (Nat.zero_le _) (by omega)
        simpa using all

theorem findAny_eq (needles : List Bytes) :
    findAny container needles = Library.firstListed needles (content container.chunksVector) := by
  induction needles with
  | nil => rfl
  | cons needle needles ih =>
    simp only [findAny, find_eq counted, ih, Library.firstListed, List.findSome?_cons]
    cases Library.occurrence needle (content container.chunksVector) <;> rfl

end

end Mantids.Memory.BChunks
