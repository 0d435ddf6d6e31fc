import Mantids.Memory.Containers

/-! Where all containers of the same bytes find the same: nowhere, as soon as a byte of the search space
could be the first of the needle. -/

set_option autoImplicit false

namespace Mantids.Memory

/-! ## The first character -/

namespace BChunks

/-- A letter in one of its two cases. -/
theorem eq_toupper_or_tolower_iff (c b : UInt8) :
    (b = toupper c ∨ b = tolower c) ↔ tolower c = tolower b := by
  have sub : 97 ≤ c.toNat → (c - 32).toNat = c.toNat - 32 := by
    intro le
    rw [UInt8.toNat_sub_of_le]
    · rfl
    · rw [UInt8.le_iff_toNat_le]
      exact Nat.le_trans (by decide) le
  have add (x : UInt8) : x.toNat ≤ 90 → (x + 32).toNat = x.toNat + 32 := by
    intro le
    rw [UInt8.toNat_add]
    apply Nat.mod_eq_of_lt
    change _ + 32 < 256
    omega
  have addc := add c
  have addb := add b
  unfold toupper tolower
  simp only [UInt8.le_iff_toNat_le, ← UInt8.toNat_inj]
  have n97 : (97 : UInt8).toNat = 97 := rfl
  have n122 : (122 : UInt8).toNat = 122 := rfl
  have n65 : (65 : UInt8).toNat = 65 := rfl
  have n90 : (90 : UInt8).toNat = 90 := rfl
  rw [n97, n122, n65, n90]
  split_ifs <;> omega

theorem nearest_memchr (data : Bytes) (c : UInt8) :
    nearest (memchr data (toupper c)) (memchr data (tolower c)) = data.findIdx? (Mem.icharcmp c) := by
  rw [memchr, memchr, nearest_findIdx?]
  congr 1
  funext b
  rw [Mem.icharcmp, ← Bool.decide_or, decide_eq_decide]
  exact eq_toupper_or_tolower_iff c b

/-- What is no letter has one case. -/
theorem icharcmp_of_not_isLetter {c : UInt8} (other : isLetter c = false) (b : UInt8) :
    Mem.icharcmp c b = decide (b = c) := by
  have same : toupper c = c ∧ tolower c = c := by
    unfold isLetter at other
    rw [Bool.or_eq_false_iff, Bool.and_eq_false_iff, Bool.and_eq_false_iff] at other
    simp only [decide_eq_false_iff_not] at other
    constructor
    · rw [toupper, if_neg]
      rintro ⟨low, high⟩
      exact other.2.elim (absurd low) (absurd high)
    · rw [tolower, if_neg]
      rintro ⟨low, high⟩
      exact other.1.elim (absurd low) (absurd high)
  have cases := eq_toupper_or_tolower_iff c b
  rw [same.1, same.2, or_self] at cases
  rw [Mem.icharcmp, same.2, decide_eq_decide]
  exact cases.symm

theorem icharcmp_self (c : UInt8) : Mem.icharcmp c c = true := decide_eq_true rfl

theorem memchr_eq_none {data : Bytes} {c : UInt8} (none : ∀ b ∈ data, Mem.icharcmp c b = false) :
    memchr data c = Option.none := by
  rw [memchr, List.findIdx?_eq_none_iff]
  intro b member
  apply decide_eq_false
  rintro rfl
  have absent := none b member
  rw [icharcmp_self] at absent
  cases absent

theorem findIdx?_eq_none {data : Bytes} {c : UInt8} (none : ∀ b ∈ data, Mem.icharcmp c b = false) :
    data.findIdx? (Mem.icharcmp c) = Option.none := by
  rw [List.findIdx?_eq_none_iff]
  exact none

/-- What the chunks take for the character. -/
def taken (caseSensitive : Bool) (c b : UInt8) : Bool :=
  if (caseSensitive && isLetter c) = false then b = c else Mem.icharcmp c b

theorem memchrMode_eq (caseSensitive : Bool) (data : Bytes) (c : UInt8) :
    memchrMode caseSensitive data c = data.findIdx? (taken caseSensitive c) := by
  unfold memchrMode taken
  split
  · rfl
  · exact nearest_memchr data c

/-- A search over chunks that is given no more than the case of the character. -/
theorem taken_isLetter (c : UInt8) : taken (isLetter c) c = Mem.icharcmp c := by
  funext b
  unfold taken
  cases letter : isLetter c with
  | false => exact (icharcmp_of_not_isLetter letter b).symm
  | true => rfl

theorem icharcmp_of_taken {caseSensitive : Bool} {c b : UInt8} (yes : taken caseSensitive c b = true) :
    Mem.icharcmp c b = true := by
  unfold taken at yes
  split at yes
  · rw [of_decide_eq_true yes]
    exact icharcmp_self c
  · exact yes

/-- The loop searches the search space. -/
theorem findCharModeLoop_eq (caseSensitive : Bool) (c : UInt8) (chunks : List BinaryContainerChunk)
    (offset searchSpace retpos : Nat) :
    findCharModeLoop caseSensitive c chunks offset searchSpace retpos =
      ((((Memory.content chunks).drop offset).take searchSpace).findIdx? (taken caseSensitive c)).map
        (· + offset + retpos) := by
  induction chunks generalizing offset searchSpace retpos with
  | nil => simp [findCharModeLoop]
  | cons chunk rest ih =>
    rw [findCharModeLoop, content_cons]
    split
    · rename_i beyond
      rw [ih, List.drop_append, List.drop_eq_nil_of_le (Nat.le_of_lt beyond), List.nil_append]
      congr 1
      funext pos
      show pos + (offset - chunk.size) + (retpos + chunk.size) = pos + offset + retpos
      omega
    · rename_i inside
      have length : (chunk.data.drop offset).length = chunk.size - offset := List.length_drop
      rw [List.drop_append_of_le_length (Nat.le_of_not_lt inside), List.take_append, List.findIdx?_append]
      simp only [memchrMode_eq]
      cases ((chunk.data.drop offset).take searchSpace).findIdx? (taken caseSensitive c) with
      | some pos => simp
      | none =>
        simp only [Option.none_or]
        split
        · rename_i more
          rw [ih, List.drop_zero, Option.map_map, List.length_take]
          congr 1
          funext pos
          show pos + 0 + (retpos + chunk.size) = pos + min searchSpace (chunk.data.drop offset).length + offset + retpos
          omega
        · rename_i less
          have empty : searchSpace - (chunk.data.drop offset).length = 0 := by omega
          rw [empty, List.take_zero]
          rfl

end BChunks

namespace Container

/-! ## Sizes -/

theorem size_eq {container : Container} (valid : container.Valid) :
    container.size = container.content.length ∧ container.size < 2 ^ 64 := by
  induction container with
  | mem linearMem => exact ⟨rfl, Nat.lt_trans valid (by decide)⟩
  | chunks container => exact ⟨valid.bytes.trans (length_content _).symm, valid.word⟩
  | mmap linearMem => exact ⟨rfl, Nat.lt_trans valid (by decide)⟩
  | ref referencedBC referencedOffset referencedMaxBytes ih =>
    obtain ⟨base, inside, word⟩ := valid
    obtain ⟨length, small⟩ := ih base
    have available : (referencedBC.size + 2 ^ 64 - referencedOffset) % 2 ^ 64 = referencedBC.size - referencedOffset := by
      rw [Nat.add_comm, Nat.add_sub_assoc inside, Nat.add_mod_left]
      exact Nat.mod_eq_of_lt (by omega)
    have bound : (ref referencedBC referencedOffset referencedMaxBytes).size ≤ referencedBC.size - referencedOffset := by
      rw [size, available]
      split_ifs <;> omega
    refine ⟨?_, by omega⟩
    rw [content, List.length_take, List.length_drop, ← length]
    omega

/-- The search space of a window in what it is a window of. -/
theorem window_eq {referencedBC : Container} {referencedOffset referencedMaxBytes offset searchSpace : Nat}
    (fits : offset + searchSpace ≤ (ref referencedBC referencedOffset referencedMaxBytes).size) :
    ((ref referencedBC referencedOffset referencedMaxBytes).content.drop offset).take searchSpace =
      (referencedBC.content.drop (referencedOffset + offset)).take searchSpace := by
  rw [content, List.drop_take, List.take_take, List.drop_drop, Nat.min_eq_left (by omega)]

/-! ## Nothing to be found -/

theorem findCharMem_none {linearMem : Bytes} {c : UInt8} {offset searchSpace : Nat} (some : 0 < searchSpace)
    (none : ∀ b ∈ (linearMem.drop offset).take searchSpace, Mem.icharcmp c b = false) (caseSensitive : Bool) :
    (findCharMem linearMem c offset searchSpace caseSensitive).1 = false := by
  have space : searchSpace ≠ 0 := Nat.ne_of_gt some
  simp only [findCharMem, space, if_false, BChunks.memchr_eq_none none, BChunks.nearest_memchr,
    BChunks.findIdx?_eq_none none, ite_self]
  split_ifs <;> rfl

theorem findChar_none {container : Container} {c : UInt8} {offset searchSpace : Nat} (some : 0 < searchSpace)
    (valid : container.Valid) (fits : offset + searchSpace ≤ container.size)
    (none : ∀ b ∈ (container.content.drop offset).take searchSpace, Mem.icharcmp c b = false) (caseSensitive : Bool) :
    (container.findChar c offset searchSpace caseSensitive).1 = false := by
  induction container generalizing offset caseSensitive with
  | mem linearMem => exact findCharMem_none some none caseSensitive
  | chunks container =>
    have missing : (((Memory.content container.chunksVector).drop offset).take searchSpace).findIdx?
        (BChunks.taken caseSensitive c) = Option.none := by
      rw [List.findIdx?_eq_none_iff]
      intro b member
      cases yes : BChunks.taken caseSensitive c b with
      | false => rfl
      | true =>
        have absent := none b member
        rw [BChunks.icharcmp_of_taken yes] at absent
        cases absent
    rw [findChar, findCharChunks, BChunks.findCharModeLoop_eq, missing]
    split_ifs <;> rfl
  | mmap linearMem => exact findCharMem_none some none _
  | ref referencedBC referencedOffset referencedMaxBytes ih =>
    have base := size_eq valid.1
    have window := size_eq valid
    rw [window_eq fits] at none
    have inside : referencedOffset + (offset + searchSpace) ≤ referencedBC.size := by
      have taken := window.1
      rw [content, List.length_take, List.length_drop, ← base.1] at taken
      have begins := valid.2.1
      omega
    have word : (referencedOffset + offset) % 2 ^ 64 = referencedOffset + offset := Nat.mod_eq_of_lt (by omega)
    rw [findChar, word]
    apply ih valid.1
    · omega
    · exact none

/-- The first turn of the loop finds no character. -/
theorem findLoop_none {container : Container} {first : UInt8} {offset searchSpace : Nat} {caseSensitive : Bool}
    (none : (container.findChar first offset searchSpace caseSensitive).1 = false) (needle : Bytes) (turns : Nat) :
    container.findLoop first needle caseSensitive (turns + 1) offset searchSpace = some (false, 0) := by
  rw [findLoop]
  cases found : container.findChar first offset searchSpace caseSensitive with
  | mk yes pos =>
    rw [found] at none
    cases none
    rfl

/-- What a window compares. -/
theorem compare2_ref (referencedBC : Container) (referencedOffset referencedMaxBytes : Nat) (buf : Bytes)
    (caseSensitive : Bool) (offset : Nat) :
    (ref referencedBC referencedOffset referencedMaxBytes).compare2 buf caseSensitive offset =
      if (ref referencedBC referencedOffset referencedMaxBytes).size < offset then some false
      else compareChecked referencedBC.size
        (buf.take ((ref referencedBC referencedOffset referencedMaxBytes).size - offset))
        ((referencedOffset + offset) % 2 ^ 64)
        (referencedBC.compare2 (buf.take ((ref referencedBC referencedOffset referencedMaxBytes).size - offset))
          caseSensitive ((referencedOffset + offset) % 2 ^ 64)) := by
  rw [compare2]

end Container

theorem length_sighted (caseSensitive : Bool) (bytes : Bytes) :
    (sighted caseSensitive bytes).length = bytes.length := by
  unfold sighted
  split
  · rfl
  · exact List.length_map ..

/-- The search space is too short, or none of its bytes is the first of the needle in one of its cases. -/
def Hopeless (s needle : Bytes) (offset searchSpace : Nat) : Prop :=
  spaceOf s offset searchSpace < needle.length ∨
    ∀ first ∈ needle.head?, ∀ b ∈ (s.drop offset).take (spaceOf s offset searchSpace), Mem.icharcmp first b = false

section
variable {s needle : Bytes} {caseSensitive : Bool} {offset searchSpace : Nat}

/-- An occurrence begins with the first character. -/
theorem icharcmp_of_starts {first : UInt8} {rest data : Bytes} {i : Nat} (less : i < data.length)
    (starts : sighted caseSensitive (first :: rest) <+: (sighted caseSensitive data).drop i) :
    Mem.icharcmp first data[i] = true := by
  unfold sighted at starts
  unfold Mem.icharcmp
  rw [decide_eq_true_iff]
  split at starts
  · rw [BChunks.head_of_starts starts less]
  · rw [List.map_cons] at starts
    have head := BChunks.head_of_starts starts (by rw [List.length_map]; exact less)
    rw [List.getElem_map] at head
    exact head.symm

theorem leftmost_of_hopeless (some : needle ≠ []) (hopeless : Hopeless s needle offset searchSpace) :
    leftmost s needle caseSensitive offset searchSpace = none := by
  rw [leftmost, Option.map_eq_none_iff, Library.occurrence_eq_none_iff]
  intro i less starts
  rw [length_sighted] at less
  rcases hopeless with short | absent
  · have fits := starts.length_le
    rw [length_sighted, List.length_drop, length_sighted, List.length_take] at fits
    omega
  · cases needle with
    | nil => exact some rfl
    | cons first rest =>
      have none := absent first rfl _ (List.getElem_mem less)
      rw [icharcmp_of_starts less starts] at none
      cases none

theorem agrees_of_hopeless (some : needle ≠ []) (within : offset + searchSpace ≤ s.length)
    (hopeless : Hopeless s needle offset searchSpace) : SearchAgrees s needle caseSensitive offset searchSpace := by
  intro container valid holds
  rw [leftmost_of_hopeless some hopeless]
  obtain ⟨size, word⟩ := Container.size_eq valid
  rw [holds] at size
  have space : spaceOf s offset searchSpace = if searchSpace = 0 then container.size - offset else searchSpace := by
    rw [spaceOf, size]
  have inside : offset + spaceOf s offset searchSpace ≤ container.size := by
    rw [space]
    split_ifs <;> omega
  unfold Container.find
  dsimp only
  rw [← space]
  split_ifs with long wraps beyond none short
  · exact ⟨_, rfl, rfl⟩
  · exact ⟨_, rfl, rfl⟩
  · exact ⟨_, rfl, rfl⟩
  · exact ⟨_, rfl, rfl⟩
  · exact ⟨_, rfl, rfl⟩
  · cases needle with
    | nil => exact absurd rfl some
    | cons first rest =>
      have absent := hopeless.resolve_left short first rfl
      have missed := Container.findChar_none (Nat.pos_of_ne_zero none) valid inside (by rw [holds]; exact absent)
        caseSensitive
      exact ⟨_, Container.findLoop_none missed _ _, rfl⟩

end

/-! ## A window for every other case -/

/-- Bytes behind others: chunks try both cases in a search that asks for the case, and memory in one that does not. -/
def cornered (caseSensitive : Bool) (bytes : Bytes) : Container :=
  if caseSensitive then .chunks ⟨[⟨bytes, 0⟩], bytes.length, .default⟩ else .mem bytes

section
variable {caseSensitive : Bool} {bytes : Bytes}

theorem content_cornered (caseSensitive : Bool) (bytes : Bytes) : (cornered caseSensitive bytes).content = bytes := by
  cases caseSensitive
  · rfl
  · exact List.append_nil bytes

theorem valid_cornered (word : bytes.length < 2 ^ 64) (small : caseSensitive = false → bytes.length < 2 ^ 32) :
    (cornered caseSensitive bytes).Valid := by
  cases caseSensitive
  · exact small rfl
  · exact ⟨rfl, word⟩

theorem findChar_cornered (c : UInt8) {offset searchSpace : Nat} (positive : 0 < searchSpace)
    (fits : offset + searchSpace ≤ bytes.length) (word : bytes.length < 2 ^ 64) :
    (cornered caseSensitive bytes).findChar c offset searchSpace (caseSensitive && BChunks.isLetter c) =
      match ((bytes.drop offset).take searchSpace).findIdx? (Mem.icharcmp c) with
      | none => (false, 0)
      | some pos => (true, pos + offset) := by
  have plain : overflowSum offset searchSpace = false := decide_eq_false (by omega)
  cases caseSensitive with
  | false =>
    change Container.findCharMem bytes c offset searchSpace false = _
    have space : searchSpace ≠ 0 := Nat.ne_of_gt positive
    simp only [Container.findCharMem, plain, space, if_false, Bool.false_and, Bool.false_eq_true,
      BChunks.nearest_memchr]
    have filled : bytes.length ≠ 0 := by omega
    have inside : ¬bytes.length < offset + searchSpace := by omega
    cases ((bytes.drop offset).take searchSpace).findIdx? (Mem.icharcmp c) with
    | none => simp only [filled, inside, if_false]
    | some pos => simp only [filled, inside, if_false]
  | true =>
    change Container.findCharChunks ⟨[⟨bytes, 0⟩], bytes.length, .default⟩ c offset searchSpace (BChunks.isLetter c) = _
    have whole : Memory.content [⟨bytes, 0⟩] = bytes := List.append_nil bytes
    have inside : ¬(bytes.length < offset ∨ bytes.length < offset + searchSpace) := by omega
    simp only [Container.findCharChunks, plain, BChunks.size, inside, if_false, Bool.false_eq_true,
      BChunks.findCharModeLoop_eq, BChunks.taken_isLetter, whole]
    cases ((bytes.drop offset).take searchSpace).findIdx? (Mem.icharcmp c) <;> rfl

theorem findChar_cornered_wraps (c : UInt8) {offset searchSpace : Nat} (wraps : 2 ^ 64 ≤ offset + searchSpace) (mode : Bool) :
    ((cornered caseSensitive bytes).findChar c offset searchSpace mode).1 = false := by
  have beyond : overflowSum offset searchSpace = true := decide_eq_true wraps
  cases caseSensitive with
  | false =>
    change (Container.findCharMem bytes c offset searchSpace mode).1 = false
    simp only [Container.findCharMem, beyond, if_true]
    split_ifs <;> rfl
  | true =>
    change (Container.findCharChunks _ c offset searchSpace mode).1 = false
    rw [Container.findCharChunks, if_pos beyond]

end

section
variable {s : Bytes} {first : UInt8} {rest : Bytes} {caseSensitive : Bool} {offset searchSpace : Nat}

/-- The window of the bytes behind so many others. -/
def windowBehind (caseSensitive : Bool) (before : Nat) (s : Bytes) : Container :=
  .ref (cornered caseSensitive (List.replicate before 0 ++ s)) before s.length

section
variable {before : Nat} (word : before + s.length < 2 ^ 64)
include word

section
variable (small : caseSensitive = false → before + s.length < 2 ^ 32)
include small

theorem valid_windowBehind : (windowBehind caseSensitive before s).Valid := by
  have length : (List.replicate before (0 : UInt8) ++ s).length = before + s.length := by simp
  have base : (cornered caseSensitive (List.replicate before 0 ++ s)).Valid := by
    apply valid_cornered
    · rw [length]
      exact word
    · rw [length]
      exact small
  refine ⟨base, ?_, by omega⟩
  rw [(Container.size_eq base).1, content_cornered, length]
  omega

theorem content_windowBehind : (windowBehind caseSensitive before s).content = s ∧
    (windowBehind caseSensitive before s).size = s.length := by
  have valid := valid_windowBehind word small
  have base := Container.size_eq valid.1
  rw [content_cornered, List.length_append, List.length_replicate] at base
  have size : (windowBehind caseSensitive before s).size = s.length := by
    have available : ((cornered caseSensitive (List.replicate before 0 ++ s)).size + 2 ^ 64 - before) % 2 ^ 64 =
        s.length := by
      have left : before + s.length + 2 ^ 64 - before = s.length + 2 ^ 64 := by omega
      rw [base.1, left, Nat.add_mod_right]
      exact Nat.mod_eq_of_lt (by omega)
    rw [windowBehind, Container.size, available, ite_self]
  refine ⟨?_, size⟩
  rw [windowBehind, Container.content, content_cornered, List.drop_left' List.length_replicate]
  change s.take (windowBehind caseSensitive before s).size = s
  rw [size, List.take_length]

end

/-- The position that is found in a window counts from the beginning of what it is a window of. -/
theorem findChar_windowBehind (c : UInt8) (positive : 0 < searchSpace) (fits : offset + searchSpace ≤ s.length) {pos : Nat}
    (found : ((s.drop offset).take searchSpace).findIdx? (Mem.icharcmp c) = some pos) :
    (windowBehind caseSensitive before s).findChar c offset searchSpace caseSensitive =
      (true, pos + (before + offset)) := by
  have place : (before + offset) % 2 ^ 64 = before + offset := Nat.mod_eq_of_lt (by omega)
  rw [windowBehind, Container.findChar, place, findChar_cornered c positive]
  · rw [List.drop_append, List.length_replicate, List.drop_eq_nil_of_le (by simp), List.nil_append,
      Nat.add_sub_cancel_left, found]
  · rw [List.length_append, List.length_replicate]
    omega
  · rw [List.length_append, List.length_replicate]
    exact word

end

theorem find_eq_findLoop {container : Container} (size : container.size = s.length) (word : s.length < 2 ^ 64)
    (within : offset + searchSpace ≤ s.length) (enough : (first :: rest).length ≤ spaceOf s offset searchSpace) :
    container.find (first :: rest) caseSensitive offset searchSpace =
      container.findLoop first (first :: rest) caseSensitive (container.extent + 1) offset
        (spaceOf s offset searchSpace) := by
  have space : (if searchSpace = 0 then container.size - offset else searchSpace) = spaceOf s offset searchSpace := by
    rw [spaceOf, size]
  have bound : offset + spaceOf s offset searchSpace ≤ s.length := by
    rw [spaceOf]
    split_ifs <;> omega
  have plain : overflowSum offset (first :: rest).length = false := decide_eq_false (by omega)
  have short : overflowSum offset searchSpace = false := decide_eq_false (by omega)
  rw [List.length_cons] at enough plain
  unfold Container.find
  dsimp only
  rw [space, List.length_cons, plain, short, if_neg Bool.false_ne_true, if_neg Bool.false_ne_true, if_neg (by omega),
    if_neg (by omega), if_neg (by omega)]

/-- No character is found where the positions run over the largest. -/
theorem findChar_windowBehind_wraps {before : Nat} (c : UInt8)
    (wraps : 2 ^ 64 ≤ (before + offset) % 2 ^ 64 + searchSpace) :
    ((windowBehind caseSensitive before s).findChar c offset searchSpace caseSensitive).1 = false := by
  rw [windowBehind, Container.findChar]
  exact findChar_cornered_wraps c wraps _

/-- Behind the end of a window there is nothing to compare. -/
theorem compare2_outside {before place : Nat} (size : (windowBehind caseSensitive before s).size = s.length)
    (outside : s.length < place) (needle : Bytes) :
    (windowBehind caseSensitive before s).compare2 needle caseSensitive place = some false := by
  rw [windowBehind] at size ⊢
  rw [Container.compare2_ref, size, if_pos outside]

/-- At the end of a window, nothing is compared, and found the same. -/
theorem compare2_end {before : Nat} (size : (windowBehind caseSensitive before s).size = s.length) (needle : Bytes) :
    (windowBehind caseSensitive before s).compare2 needle caseSensitive s.length = some true := by
  have plain : overflowSum ((before + s.length) % 2 ^ 64) ([] : Bytes).length = false :=
    decide_eq_false (Nat.not_le.mpr (Nat.mod_lt _ (by decide)))
  rw [windowBehind] at size ⊢
  rw [Container.compare2_ref, size, if_neg (Nat.lt_irrefl _), Nat.sub_self, List.take_zero, Container.compareChecked,
    plain, if_neg Bool.false_ne_true, if_pos rfl]

/-- One turn of the loop at a candidate, where no position is too large for a number. -/
theorem findLoop_candidate {container : Container} {needle : Bytes} {displacement : Nat} {equal : Bool} (turns : Nat)
    (found : container.findChar first offset searchSpace caseSensitive = (true, offset + displacement))
    (word : offset + displacement < 2 ^ 64) (compared : container.compare2 needle caseSensitive (offset + displacement) =
      some equal) :
    container.findLoop first needle caseSensitive (turns + 1) offset searchSpace =
      if equal then some (true, offset + displacement)
      else if (searchSpace + 2 ^ 64 - displacement) % 2 ^ 64 = 0 then some (false, 0)
      else container.findLoop first needle caseSensitive turns ((offset + displacement + 1) % 2 ^ 64)
        ((searchSpace + 2 ^ 64 - displacement) % 2 ^ 64 - 1) := by
  have displaced : (offset + displacement + 2 ^ 64 - offset) % 2 ^ 64 = displacement := by
    rw [Nat.add_assoc, Nat.add_sub_cancel_left, Nat.add_mod_right]
    exact Nat.mod_eq_of_lt (by omega)
  have current : (offset + displacement) % 2 ^ 64 = offset + displacement := Nat.mod_eq_of_lt word
  rw [Container.findLoop, found]
  dsimp only
  rw [displaced, current, compared]
  cases equal with
  | false => rw [if_neg Bool.false_ne_true]
  | true => rw [if_pos rfl]

section
variable {pos : Nat} (found : ((s.drop offset).take searchSpace).findIdx? (Mem.icharcmp first) = some pos)
include found

theorem found_lt : pos < searchSpace := by
  have less := (List.findIdx?_eq_some_iff_getElem.mp found).1
  rw [List.length_take] at less
  omega

variable (bound : offset + searchSpace ≤ s.length) (positive : 0 < searchSpace)
include bound positive

/-- Far behind, the loop looks for the needle outside the window, and goes on where no position is left. -/
theorem findLoop_windowBehind_far (small : s.length + 1 + s.length < 2 ^ 63)
    (size : (windowBehind caseSensitive (s.length + 1) s).size = s.length) (needle : Bytes) (turns : Nat) :
    (windowBehind caseSensitive (s.length + 1) s).findLoop first needle caseSensitive (turns + 1 + 1) offset searchSpace =
      some (false, 0) := by
  have less := found_lt found
  have behind : s.length + 1 + s.length < 2 ^ 64 := by omega
  have candidate := @findChar_windowBehind s caseSensitive _ _ _ behind first positive bound _ found
  have place : pos + (s.length + 1 + offset) = offset + (pos + (s.length + 1)) := by omega
  rw [place] at candidate
  have outside := compare2_outside size (show s.length < offset + (pos + (s.length + 1)) by omega) needle
  rw [findLoop_candidate (turns + 1) candidate (by omega) outside, if_neg Bool.false_ne_true]
  have left : (searchSpace + 2 ^ 64 - (pos + (s.length + 1))) % 2 ^ 64 =
      searchSpace + 2 ^ 64 - (pos + (s.length + 1)) := Nat.mod_eq_of_lt (by omega)
  have next : (offset + (pos + (s.length + 1)) + 1) % 2 ^ 64 = offset + (pos + (s.length + 1)) + 1 :=
    Nat.mod_eq_of_lt (by omega)
  rw [left, next, if_neg (by omega)]
  apply Container.findLoop_none
  apply findChar_windowBehind_wraps
  have beyond : (s.length + 1 + (offset + (pos + (s.length + 1)) + 1)) % 2 ^ 64 =
      s.length + 1 + (offset + (pos + (s.length + 1)) + 1) := Nat.mod_eq_of_lt (by omega)
  rw [beyond]
  omega

/-- Just as far behind as the character is from the end, the needle is compared where nothing is left to compare. -/
theorem findLoop_windowBehind_near (word : s.length + s.length < 2 ^ 64)
    (size : (windowBehind caseSensitive (s.length - (offset + pos)) s).size = s.length) (needle : Bytes) (turns : Nat) :
    (windowBehind caseSensitive (s.length - (offset + pos)) s).findLoop first needle caseSensitive (turns + 1) offset
      searchSpace = some (true, s.length) := by
  have less := found_lt found
  have behind : s.length - (offset + pos) + s.length < 2 ^ 64 := by omega
  have candidate := @findChar_windowBehind s caseSensitive _ _ _ behind first positive bound _ found
  have place : pos + (s.length - (offset + pos) + offset) = offset + (s.length - offset) := by omega
  have last : offset + (s.length - offset) = s.length := by omega
  rw [place] at candidate
  have empty : (windowBehind caseSensitive (s.length - (offset + pos)) s).compare2 needle caseSensitive
      (offset + (s.length - offset)) = some true := by
    rw [last]
    exact compare2_end size needle
  rw [findLoop_candidate turns candidate (by omega) empty, if_pos rfl, last]

end

theorem extent_windowBehind {before : Nat} :
    (windowBehind caseSensitive before s).extent = before + s.length := by
  have length : (List.replicate before (0 : UInt8) ++ s).length = before + s.length := by simp
  rw [windowBehind, Container.extent]
  cases caseSensitive with
  | false => exact length
  | true => exact length

/-- As soon as a byte of the search space could be the first of the needle, a window of the same bytes misses
the needle that is there, or finds one that is not. -/
theorem hopeless_of_agrees (held : s.length < 2 ^ 32) (small : caseSensitive = false → s.length < 2 ^ 31)
    (within : offset + searchSpace ≤ s.length)
    (agrees : SearchAgrees s (first :: rest) caseSensitive offset searchSpace) :
    Hopeless s (first :: rest) offset searchSpace := by
  by_contra hope
  obtain ⟨enough, some⟩ := not_or.mp hope
  rw [not_lt] at enough
  have positive : 0 < spaceOf s offset searchSpace := by
    rw [List.length_cons] at enough
    omega
  have bound : offset + spaceOf s offset searchSpace ≤ s.length := by
    rw [spaceOf]
    split_ifs <;> omega
  cases found : ((s.drop offset).take (spaceOf s offset searchSpace)).findIdx? (Mem.icharcmp first) with
  | none =>
    apply some
    intro other same
    cases same
    exact List.findIdx?_eq_none_iff.mp found
  | some pos =>
    have less := found_lt found
    cases sought : leftmost s (first :: rest) caseSensitive offset searchSpace with
    | some place =>
      have fits : caseSensitive = false → s.length + 1 + s.length < 2 ^ 32 := by
        intro insensitive
        have half := small insensitive
        omega
      have word : s.length + 1 + s.length < 2 ^ 64 := by omega
      have window := content_windowBehind word fits
      obtain ⟨outcome, ran, right⟩ := agrees _ (valid_windowBehind word fits) window.1
      rw [sought] at right
      rw [find_eq_findLoop window.2 (by omega) within enough, extent_windowBehind] at ran
      have turns : s.length + 1 + s.length + 1 = 2 * s.length + 1 + 1 := by omega
      rw [turns, findLoop_windowBehind_far found bound positive (by omega) window.2] at ran
      cases ran
      cases right
    | none =>
      have fits : caseSensitive = false → s.length - (offset + pos) + s.length < 2 ^ 32 := by
        intro insensitive
        have half := small insensitive
        omega
      have word : s.length - (offset + pos) + s.length < 2 ^ 64 := by omega
      have window := content_windowBehind word fits
      obtain ⟨outcome, ran, right⟩ := agrees _ (valid_windowBehind word fits) window.1
      rw [sought] at right
      rw [find_eq_findLoop window.2 (by omega) within enough, extent_windowBehind,
        findLoop_windowBehind_near found bound positive (by omega) window.2] at ran
      cases ran
      cases right

end

/-- All containers of the same bytes agree on the leftmost occurrence exactly if nothing can be found: the
needle is longer than the search space, or its first character is not there. Bytes to be found in either case
stand behind others in linear memory, which holds no more than a 32-bit size. -/
theorem searchAgrees_iff {s needle : Bytes} {offset searchSpace : Nat} (caseSensitive : Bool) (held : s.length < 2 ^ 32)
    (nonempty : needle ≠ []) (within : offset + searchSpace ≤ s.length) :
    (Hopeless s needle offset searchSpace → SearchAgrees s needle caseSensitive offset searchSpace) ∧
    ((caseSensitive = false → s.length < 2 ^ 31) → SearchAgrees s needle caseSensitive offset searchSpace →
      Hopeless s needle offset searchSpace) := by
  constructor
  · exact agrees_of_hopeless nonempty within
  · intro small agrees
    cases needle with
    | nil => exact absurd rfl nonempty
    | cons first rest => exact hopeless_of_agrees held small within agrees

theorem searchAgrees_iff_here :
    (Hopeless [97, 98] [97] 0 0 → SearchAgrees [97, 98] [97] true 0 0) ∧
    ((true = false → [97, 98].length < 2 ^ 31) → SearchAgrees [97, 98] [97] true 0 0 → Hopeless [97, 98] [97] 0 0) :=
  searchAgrees_iff true (by decide) (by decide) (by decide)

/-- A window of the last two of three bytes does not find the first of them. -/
theorem not_searchAgrees : ¬SearchAgrees [97, 98] [97] true 0 0 := by
  intro agrees
  have valid : (Container.ref (.mem [0, 97, 98]) 1 2).Valid := by
    refine ⟨?_, by decide, by decide⟩
    show [0, 97, 98].length < 2 ^ 32
    decide
  have misses : (Container.ref (.mem [0, 97, 98]) 1 2).find [97] true 0 0 = some (false, 0) := by decide +kernel
  have sought : leftmost [97, 98] [97] true 0 0 = some 0 := by decide +kernel
  obtain ⟨found, ran, same⟩ := agrees _ valid (by decide +kernel)
  rw [misses] at ran
  rw [sought] at same
  cases ran
  cases same

end Mantids.Memory
