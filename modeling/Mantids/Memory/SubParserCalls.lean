import Mantids.Memory.Append
import Mantids.Memory.Elements

/-! What one write does to a sub parser that waits for whole elements. -/

set_option autoImplicit false

namespace Mantids.Memory.Streams

/-- A sub parser between two writes. -/
structure Waiting (p : SubParser) : Prop where
  counted : p.unparsedBuffer.Counted
  fits : p.unparsedBuffer.containerBytes ≤ p.unparsedBuffer.limits.maxSize
  chunks : p.unparsedBuffer.chunksVector.length ≤ p.unparsedBuffer.limits.maxChunks
  maxChunks : p.unparsedBuffer.limits.maxChunks = Limits.default.maxChunks
  maxChunkSize : p.unparsedBuffer.limits.maxChunkSize = Limits.default.maxChunkSize
  running : p.streamEnded = false
  buffers : p.parseMode.Buffers
  incomplete : p.settings.firstElement p.pending = none

/-- The buffer has chunks for what it takes of the write. -/
def HasRoom (p : SubParser) (buf : Bytes) : Prop :=
  p.unparsedBuffer.chunksVector.length +
      p.unparsedBuffer.limits.chunkCount (buf.take p.unparsedBuffer.getSizeLeft).length ≤
    p.unparsedBuffer.limits.maxChunks

/-- The buffer has room where it takes anything, and in the mode with several
delimiters none that is listed before the first of the stream is found as well. -/
structure Orderly (p : SubParser) (buf : Bytes) : Prop where
  room : p.unparsedBuffer.getSizeLeft ≠ 0 → HasRoom p buf
  order : p.parseMode = .multiDelimiter →
    Library.InOrder p.parseMultiDelimiter ((p.pending ++ buf).take p.unparsedBuffer.limits.maxSize)

instance (p : SubParser) (buf : Bytes) : Decidable (HasRoom p buf) := inferInstanceAs (Decidable (_ ≤ _))

theorem orderly_iff {p : SubParser} {buf : Bytes} : Orderly p buf ↔
    (p.unparsedBuffer.getSizeLeft ≠ 0 → HasRoom p buf) ∧ (p.parseMode = .multiDelimiter →
      Library.InOrder p.parseMultiDelimiter ((p.pending ++ buf).take p.unparsedBuffer.limits.maxSize)) :=
  ⟨fun orderly => ⟨orderly.room, orderly.order⟩, fun both => ⟨both.1, both.2⟩⟩

instance (p : SubParser) (buf : Bytes) : Decidable (Orderly p buf) := decidable_of_iff _ orderly_iff.symm

theorem waiting_new {settings : Settings} (buffers : settings.parseMode.Buffers) : Waiting (.new settings) where
  counted := ⟨rfl, Nat.two_pow_pos 64⟩
  fits := Nat.zero_le _
  chunks := Nat.zero_le _
  maxChunks := rfl
  maxChunkSize := rfl
  running := rfl
  buffers := buffers
  incomplete := Settings.firstElement_nil

section
variable {p : SubParser} (waiting : Waiting p)
include waiting

theorem Waiting.positive : p.unparsedBuffer.limits.maxChunkSize ≠ 0 := by
  rw [waiting.maxChunkSize]
  decide

theorem Waiting.length_pending : p.pending.length = p.unparsedBuffer.containerBytes := by
  rw [SubParser.pending, length_content, waiting.counted.bytes]

theorem Waiting.sizeLeft :
    p.unparsedBuffer.getSizeLeft = p.unparsedBuffer.limits.maxSize - p.pending.length := by
  have fits := waiting.fits
  rw [waiting.length_pending, BChunks.getSizeLeft, BChunks.size, if_neg (by omega)]

/-- A cleared sub parser is as good as new. -/
theorem Waiting.clear_configure {c : BChunks} (limits : c.limits = p.unparsedBuffer.limits) (settings : Settings) :
    (SubParser.configure { p with unparsedBuffer := c } settings).clear = .new settings := by
  have maxChunks := waiting.maxChunks
  have maxChunkSize := waiting.maxChunkSize
  have running := waiting.running
  rw [← limits] at maxChunks maxChunkSize
  obtain ⟨chunksVector, containerBytes, maxSize, chunkLimit, chunkSize, w₁, w₂, w₃⟩ := c
  dsimp only at maxChunks maxChunkSize
  subst maxChunks maxChunkSize
  simp only [SubParser.clear, SubParser.configure, SubParser.new, BChunks.setMaxSize, BChunks.clear,
    BChunks.empty, running, Limits.default]

theorem Waiting.append_take {buf : Bytes} (filled : buf ≠ []) (left : p.unparsedBuffer.getSizeLeft ≠ 0)
    (room : HasRoom p buf) :
    ∃ c, p.unparsedBuffer.append (buf.take p.unparsedBuffer.getSizeLeft) =
        ((true, (buf.take p.unparsedBuffer.getSizeLeft).length), c) ∧
      BChunks.Appended p.unparsedBuffer (buf.take p.unparsedBuffer.getSizeLeft) c := by
  have fits := waiting.fits
  apply BChunks.append_appended waiting.counted waiting.positive
  · simp [left, filled]
  · rw [List.length_take, waiting.sizeLeft, waiting.length_pending]
    omega
  · exact room

end

section
variable {p : SubParser} {buf : Bytes}

theorem stick_eq (left : p.unparsedBuffer.getSizeLeft ≠ 0) :
    p.stick buf = buf.take p.unparsedBuffer.getSizeLeft := by
  unfold SubParser.stick
  split
  · rfl
  · rw [List.take_of_length_le (by omega)]

theorem take_pending (waiting : Waiting p) :
    p.pending ++ buf.take p.unparsedBuffer.getSizeLeft =
      (p.pending ++ buf).take p.unparsedBuffer.limits.maxSize := by
  have fits := waiting.fits
  rw [← waiting.length_pending] at fits
  rw [waiting.sizeLeft, List.take_append, List.take_of_length_le fits]

end

section
variable {σ : Type} (parse : Parse σ) (user : σ)

/-- `parse()` has been called and the sub parser starts again. -/
def delivered (settings : Settings) (presented : Presented) (taken : Nat) : Written σ :=
  let (status, settings, user) := parse user settings presented
  ⟨some taken, status, .new settings, user, [presented]⟩

theorem present_eq {p : SubParser} (waiting : Waiting p) {c : BChunks}
    (limits : c.limits = p.unparsedBuffer.limits) (presented : Presented) (taken : Nat) :
    present parse user { p with unparsedBuffer := c } presented taken =
      delivered parse user p.settings presented taken := by
  have settings : SubParser.settings { p with unparsedBuffer := c } = p.settings := by
    simp only [SubParser.settings, limits]
  unfold present delivered
  rw [settings]
  simp only [waiting.clear_configure limits]

/-- What a write does that the sub parser has room and order for. -/
inductive Call (p : SubParser) (buf : Bytes) : Written σ → Prop where
  | element {element : Element} {taken : Nat} (complete : p.settings.firstElement (p.pending ++ buf) = some element)
      (count : p.pending.length + taken = element.length) :
      Call p buf (delivered parse user p.settings element.presented taken)
  | more {p' : SubParser} {taken : Nat} (waiting : Waiting p') (settings : p'.settings = p.settings)
      (bound : taken ≤ buf.length) (pending : p'.pending = p.pending ++ buf.take taken) :
      Call p buf ⟨some taken, .getMoreData, p', user, []⟩
  | full {p' : SubParser} (incomplete : p.settings.firstElement (p.pending ++ buf) = none)
      (full : p.pending.length = p.unparsedBuffer.limits.maxSize) :
      Call p buf ⟨none, .getMoreData, p', user, []⟩

/-- What another write does. -/
inductive Mishap (p : SubParser) (buf : Bytes) : Written σ → Prop where
  | crowded {p' : SubParser} (below : p.pending.length < p.unparsedBuffer.limits.maxSize) :
      Mishap p buf ⟨none, .getMoreData, p', user, []⟩
  | misordered {element : Element} {presented : Presented} {taken : Nat}
      (complete : p.settings.firstElement (p.pending ++ buf) = some element)
      (other : presented ≠ element.presented) :
      Mishap p buf (delivered parse user p.settings presented taken)

section
variable {p : SubParser} (waiting : Waiting p) {buf : Bytes} (filled : buf ≠ [])
  (find : BChunks → Option Found) (atEnd : Option Bytes)
include waiting filled

theorem parseUpTo_full (left : p.unparsedBuffer.getSizeLeft = 0) :
    parseUpTo parse user find atEnd p buf = failed user p.clear := by
  have fits := waiting.fits
  have more := List.length_pos_of_ne_nil filled
  rw [waiting.sizeLeft, waiting.length_pending] at left
  have refused : p.unparsedBuffer.append buf = ((false, 0), p.unparsedBuffer) := BChunks.append_tooLong (by omega)
  have stick : p.stick buf = buf := by
    unfold SubParser.stick
    rw [if_neg]
    rintro ⟨-, room⟩
    rw [waiting.sizeLeft, waiting.length_pending] at room
    omega
  simp only [parseUpTo, filled, if_false, stick, refused, or_true, ne_eq, not_false_eq_true, and_self, if_true]
  rfl

theorem parseUpTo_crowded (left : p.unparsedBuffer.getSizeLeft ≠ 0)
    (crowded : ¬HasRoom p buf) :
    ∃ p', parseUpTo parse user find atEnd p buf = failed user p' := by
  have some : buf.take p.unparsedBuffer.getSizeLeft ≠ [] := by simp [left, filled]
  have refused := BChunks.append_full waiting.positive some (Nat.not_le.mp crowded) waiting.chunks
  simp only [parseUpTo, filled, if_false, stick_eq left, refused, or_true, ne_eq, some,
    not_false_eq_true, and_self, if_true]
  exact ⟨_, rfl⟩

theorem parseUpTo_room (left : p.unparsedBuffer.getSizeLeft ≠ 0)
    (room : HasRoom p buf) :
    ∃ c, BChunks.Appended p.unparsedBuffer (buf.take p.unparsedBuffer.getSizeLeft) c ∧
      parseUpTo parse user find atEnd p buf =
        match find c with
        | .some found =>
          delivered parse user p.settings (.element ((content c.chunksVector).take found.pos) found.delimiterFound)
            (bytesToDisplace found.pos found.length p.pending.length)
        | none =>
          ⟨some (buf.take p.unparsedBuffer.getSizeLeft).length, .getMoreData, { p with unparsedBuffer := c }, user, []⟩ := by
  have some : buf.take p.unparsedBuffer.getSizeLeft ≠ [] := by simp [left, filled]
  have length : (buf.take p.unparsedBuffer.getSizeLeft).length ≠ 0 := by simp [left, filled]
  obtain ⟨c, result, appended⟩ := waiting.append_take filled left room
  refine ⟨c, appended, ?_⟩
  simp only [parseUpTo, filled, if_false, stick_eq left, result, length, or_self, and_false,
    waiting.running, Bool.false_eq_true, Bool.true_eq_false]
  rw [waiting.length_pending]
  cases find c with
  | none => rfl
  | some found =>
    have same := present_eq parse user waiting appended.limits
      (.element ((content c.chunksVector).take found.pos) found.delimiterFound)
      (bytesToDisplace found.pos found.length p.unparsedBuffer.containerBytes)
    simp only [waiting.running] at same
    exact same

omit waiting filled in
theorem pending_appended {c : BChunks}
    (appended : BChunks.Appended p.unparsedBuffer (buf.take p.unparsedBuffer.getSizeLeft) c) :
    SubParser.pending { p with unparsedBuffer := c } = p.pending ++ buf.take p.unparsedBuffer.getSizeLeft :=
  appended.content

omit filled in
/-- What has taken bytes that complete nothing waits on. -/
theorem waiting_appended {c : BChunks}
    (appended : BChunks.Appended p.unparsedBuffer (buf.take p.unparsedBuffer.getSizeLeft) c) (room : HasRoom p buf)
    (incomplete : p.settings.firstElement (p.pending ++ buf) = none) : Waiting { p with unparsedBuffer := c } := by
  have fits := waiting.fits
  rw [← waiting.length_pending] at fits
  have settings : SubParser.settings { p with unparsedBuffer := c } = p.settings := by
    simp only [SubParser.settings, appended.limits]
  have pending := pending_appended appended
  have split : p.pending ++ buf.take p.unparsedBuffer.getSizeLeft ++ buf.drop p.unparsedBuffer.getSizeLeft =
      p.pending ++ buf := by
    rw [List.append_assoc, List.take_append_drop]
  have bytes : c.containerBytes = (p.pending ++ buf.take p.unparsedBuffer.getSizeLeft).length := by
    rw [← pending, SubParser.pending, length_content, appended.counted.bytes]
  refine ⟨appended.counted, ?_, ?_, ?_, ?_, waiting.running, waiting.buffers, ?_⟩
  · show c.containerBytes ≤ c.limits.maxSize
    rw [bytes, appended.limits, List.length_append, List.length_take, waiting.sizeLeft]
    omega
  · show c.chunksVector.length ≤ c.limits.maxChunks
    rw [appended.chunks, appended.limits]
    exact room
  · show c.limits.maxChunks = _
    rw [appended.limits, waiting.maxChunks]
  · show c.limits.maxChunkSize = _
    rw [appended.limits, waiting.maxChunkSize]
  · rw [← split] at incomplete
    rw [settings, pending]
    exact Settings.firstElement_of_append incomplete

omit filled in
theorem call_more {c : BChunks} (appended : BChunks.Appended p.unparsedBuffer (buf.take p.unparsedBuffer.getSizeLeft) c)
    (room : HasRoom p buf)
    (incomplete : p.settings.firstElement (p.pending ++ buf) = none) :
    Call parse user p buf
      ⟨some (buf.take p.unparsedBuffer.getSizeLeft).length, .getMoreData, { p with unparsedBuffer := c }, user, []⟩ := by
  have settings : SubParser.settings { p with unparsedBuffer := c } = p.settings := by
    simp only [SubParser.settings, appended.limits]
  refine .more (waiting_appended waiting appended room incomplete) settings (List.length_take_le' ..) ?_
  rw [pending_appended appended, List.append_cancel_left_eq, List.take_eq_take_iff, List.length_take]
  omega

/-- What a buffer with room does with the write, if its search finds what the stream has first. -/
theorem parseUpTo_call (left : p.unparsedBuffer.getSizeLeft ≠ 0)
    (room : HasRoom p buf) (mode : p.settings.parseMode ≠ .size)
    (finds : ∀ c : BChunks, c.Counted → content c.chunksVector = (p.pending ++ buf).take p.unparsedBuffer.limits.maxSize →
      find c = p.settings.firstDelimiter (content c.chunksVector)) :
    Call parse user p buf (parseUpTo parse user find atEnd p buf) := by
  have fits := waiting.fits
  obtain ⟨c, appended, result⟩ := parseUpTo_room parse user waiting filled find atEnd left room
  have whole : content c.chunksVector = (p.pending ++ buf).take p.unparsedBuffer.limits.maxSize := by
    rw [appended.content, ← take_pending waiting, SubParser.pending]
  have first : p.settings.firstElement (p.pending ++ buf) =
      (find c).map fun found => found.element (p.pending ++ buf) := by
    rw [finds c appended.counted whole, whole]
    exact Settings.firstElement_delimiter mode
  rw [result]
  cases here : find c with
  | none =>
    rw [here] at first
    exact call_more parse user waiting appended room first
  | some found =>
    rw [here] at first
    have ends := Settings.length_le_of_firstElement waiting.incomplete first
    obtain ⟨-, bound⟩ := Settings.firstElement_length_le first
    have word := p.settings.parseDataTargetSize.isLt
    have target : (p.settings.parseDataTargetSize : Nat) = p.unparsedBuffer.limits.maxSize := rfl
    simp only [Found.element] at ends bound
    have parsed : (content c.chunksVector).take found.pos = (p.pending ++ buf).take found.pos := by
      rw [whole, List.take_take, Nat.min_eq_left (by omega)]
    dsimp only
    rw [parsed]
    exact .element first (bytesToDisplace_add ends (by omega))

end

section
variable {p : SubParser} (waiting : Waiting p) {buf : Bytes} (filled : buf ≠ [])
include waiting

theorem below_of_sizeLeft (left : p.unparsedBuffer.getSizeLeft ≠ 0) :
    p.pending.length < p.unparsedBuffer.limits.maxSize := by
  rw [waiting.sizeLeft] at left
  omega

theorem full_of_sizeLeft (left : p.unparsedBuffer.getSizeLeft = 0) :
    p.pending.length = p.unparsedBuffer.limits.maxSize := by
  have fits := waiting.fits
  rw [← waiting.length_pending] at fits
  rw [waiting.sizeLeft] at left
  omega

theorem firstDelimiter_of_full (left : p.unparsedBuffer.getSizeLeft = 0) (mode : p.settings.parseMode ≠ .size) :
    p.settings.firstElement (p.pending ++ buf) = none := by
  have full : p.pending.length = p.settings.parseDataTargetSize := full_of_sizeLeft waiting left
  have missing := waiting.incomplete
  rw [Settings.firstElement_delimiter mode, Option.map_eq_none_iff] at missing ⊢
  rwa [List.take_append_of_le_length (Nat.le_of_eq full.symm)]

include filled

/-- The delimiter modes together: `found` is what the search finds in the buffer. -/
theorem parseUpTo_call_of_orderly (find : BChunks → Option Found) (atEnd : Option Bytes) (orderly : Orderly p buf)
    (mode : p.settings.parseMode ≠ .size)
    (finds : ∀ c : BChunks, c.Counted → content c.chunksVector = (p.pending ++ buf).take p.unparsedBuffer.limits.maxSize →
      find c = p.settings.firstDelimiter (content c.chunksVector)) :
    Call parse user p buf (parseUpTo parse user find atEnd p buf) := by
  by_cases left : p.unparsedBuffer.getSizeLeft = 0
  · rw [parseUpTo_full parse user waiting filled find atEnd left]
    exact .full (firstDelimiter_of_full waiting left mode) (full_of_sizeLeft waiting left)
  · exact parseUpTo_call parse user waiting filled find atEnd left (orderly.room left) mode finds

/-- What a buffer with room does with the write where elements are so many bytes. -/
theorem parseBySize_room (left : p.unparsedBuffer.getSizeLeft ≠ 0) (room : HasRoom p buf) :
    ∃ c, BChunks.Appended p.unparsedBuffer (buf.take p.unparsedBuffer.getSizeLeft) c ∧
      parseBySize parse user p buf =
        if p.unparsedBuffer.limits.maxSize ≤ (p.pending ++ buf).length then
          delivered parse user p.settings
            (.element ((p.pending ++ buf).take p.unparsedBuffer.limits.maxSize) none)
            (buf.take p.unparsedBuffer.getSizeLeft).length
        else
          ⟨some (buf.take p.unparsedBuffer.getSizeLeft).length, .getMoreData, { p with unparsedBuffer := c }, user, []⟩ := by
  have below := below_of_sizeLeft waiting left
  obtain ⟨c, result, appended⟩ := waiting.append_take filled left room
  refine ⟨c, appended, ?_⟩
  have whole : content c.chunksVector = (p.pending ++ buf).take p.unparsedBuffer.limits.maxSize := by
    rw [appended.content, ← take_pending waiting, SubParser.pending]
  have bytes : c.containerBytes = ((p.pending ++ buf).take p.unparsedBuffer.limits.maxSize).length := by
    rw [← whole, length_content, appended.counted.bytes]
  have sizeLeft : c.getSizeLeft = p.unparsedBuffer.limits.maxSize - c.containerBytes := by
    rw [BChunks.getSizeLeft, BChunks.size, appended.limits, if_neg]
    rw [bytes, List.length_take]
    omega
  rw [List.length_take] at bytes
  have complete : c.getSizeLeft = 0 ↔ p.unparsedBuffer.limits.maxSize ≤ (p.pending ++ buf).length := by omega
  simp only [parseBySize, filled, if_false, result, Bool.true_eq_false, complete]
  split
  · rw [present_eq parse user waiting appended.limits, ← whole]
    rfl
  · rfl

theorem parseBySize_call (orderly : Orderly p buf) (mode : p.settings.parseMode = .size) :
    Call parse user p buf (parseBySize parse user p buf) := by
  have fits := waiting.fits
  rw [← waiting.length_pending] at fits
  have target : (p.settings.parseDataTargetSize : Nat) = p.unparsedBuffer.limits.maxSize := rfl
  have first : p.settings.firstElement (p.pending ++ buf) = _ := Settings.firstElement_size mode
  by_cases left : p.unparsedBuffer.getSizeLeft = 0
  · -- Only an element of no bytes leaves the buffer full and waiting.
    have full := full_of_sizeLeft waiting left
    have empty : p.pending = [] := by
      by_contra some
      have missing := waiting.incomplete
      rw [Settings.firstElement_size mode, if_pos ⟨some, by omega⟩] at missing
      contradiction
    rw [empty, List.length_nil] at full
    rw [empty, List.nil_append, if_pos ⟨filled, by omega⟩, target, ← full, List.take_zero] at first
    have nothing := BChunks.append_nil waiting.counted waiting.fits
    have same := present_eq parse user waiting rfl (.element p.pending none) 0
    rw [empty] at same
    simp only [parseBySize, filled, if_false, left, List.take_zero, nothing, Bool.true_eq_false, if_true, empty]
    rw [same]
    have complete : p.settings.firstElement (p.pending ++ buf) = some ⟨[], none, 0⟩ := by
      rw [empty]
      exact first
    apply Call.element complete
    rw [empty]
    rfl
  · have below := below_of_sizeLeft waiting left
    obtain ⟨c, appended, result⟩ := parseBySize_room parse user waiting filled left (orderly.room left)
    rw [result]
    by_cases long : p.unparsedBuffer.limits.maxSize ≤ (p.pending ++ buf).length
    · rw [if_pos long]
      rw [if_pos ⟨by simp [filled], long⟩, target] at first
      apply Call.element first
      rw [List.length_append] at long
      rw [List.length_take, waiting.sizeLeft]
      dsimp only
      omega
    · rw [if_neg long]
      apply call_more parse user waiting appended (orderly.room left)
      rw [first, if_neg]
      rintro ⟨-, more⟩
      exact long more

theorem parseUpTo_mishap (find : BChunks → Option Found) (atEnd : Option Bytes)
    (left : p.unparsedBuffer.getSizeLeft ≠ 0) (crowded : ¬HasRoom p buf) :
    Mishap parse user p buf (parseUpTo parse user find atEnd p buf) := by
  obtain ⟨p', result⟩ := parseUpTo_crowded parse user waiting filled find atEnd left crowded
  rw [result]
  exact .crowded (below_of_sizeLeft waiting left)

theorem parseBySize_mishap (left : p.unparsedBuffer.getSizeLeft ≠ 0) (crowded : ¬HasRoom p buf) :
    Mishap parse user p buf (parseBySize parse user p buf) := by
  have some : buf.take p.unparsedBuffer.getSizeLeft ≠ [] := by simp [left, filled]
  have refused := BChunks.append_full waiting.positive some (Nat.not_le.mp crowded) waiting.chunks
  simp only [parseBySize, filled, if_false, refused, if_true]
  exact .crowded (below_of_sizeLeft waiting left)

omit waiting filled in
theorem parseByMultiDelimiter_eq : parseByMultiDelimiter parse user p buf =
    parseUpTo parse user
      (fun c => (c.findAny p.parseMultiDelimiter).map fun found => ⟨found.1, found.2.length, some found.2⟩)
      (some []) p buf := rfl

/-- Out of order the list order finds another delimiter than the stream has first. -/
theorem parseByMultiDelimiter_mishap (mode : p.parseMode = .multiDelimiter)
    (room : p.unparsedBuffer.getSizeLeft ≠ 0 → HasRoom p buf)
    (disorder : ¬Library.InOrder p.parseMultiDelimiter ((p.pending ++ buf).take p.unparsedBuffer.limits.maxSize)) :
    Mishap parse user p buf (parseByMultiDelimiter parse user p buf) := by
  have notSize : p.settings.parseMode ≠ .size := by simp [SubParser.settings, mode]
  obtain ⟨⟨pos, listed⟩, ⟨pos', delimiter⟩, listedHere, first, other⟩ := Library.listed_ne_of_not_inOrder disorder
  have here : p.settings.firstDelimiter ((p.pending ++ buf).take p.unparsedBuffer.limits.maxSize) =
      some ⟨pos', delimiter.length, some delimiter⟩ := by
    simp only [Settings.firstDelimiter, SubParser.settings, mode, first, Option.map_some]
  have complete : p.settings.firstElement (p.pending ++ buf) = _ := Settings.firstElement_delimiter notSize
  have target : (p.settings.parseDataTargetSize : Nat) = p.unparsedBuffer.limits.maxSize := rfl
  rw [target, here, Option.map_some] at complete
  have left : p.unparsedBuffer.getSizeLeft ≠ 0 := by
    intro full
    rw [firstDelimiter_of_full waiting full notSize] at complete
    contradiction
  obtain ⟨c, appended, result⟩ := parseUpTo_room parse user waiting filled
    (fun c => (c.findAny p.parseMultiDelimiter).map fun found => ⟨found.1, found.2.length, some found.2⟩)
    (some []) left (room left)
  have whole : content c.chunksVector = (p.pending ++ buf).take p.unparsedBuffer.limits.maxSize := by
    rw [appended.content, ← take_pending waiting, SubParser.pending]
  rw [BChunks.findAny_eq appended.counted, whole, listedHere] at result
  rw [parseByMultiDelimiter_eq, result]
  apply Mishap.misordered complete
  intro same
  simp only [Element.presented, Found.element, Presented.element.injEq, Option.some.injEq] at same
  exact other same.2

variable (fresh : Fresh)

theorem write_call (orderly : Orderly p buf) : Call parse user p buf (writeIntoParser parse user fresh p buf) := by
  have buffers := waiting.buffers
  simp only [writeIntoParser, filled, if_false]
  cases mode : p.parseMode with
  | delimiter =>
    apply parseUpTo_call_of_orderly parse user waiting filled _ _ orderly
    · simp [SubParser.settings, mode]
    · intro c counted _
      simp only [BChunks.find_eq counted, Settings.firstDelimiter, SubParser.settings, mode]
  | multiDelimiter =>
    apply parseUpTo_call_of_orderly parse user waiting filled _ _ orderly
    · simp [SubParser.settings, mode]
    · intro c counted whole
      have order := orderly.order mode
      rw [← whole] at order
      simp only [BChunks.findAny_eq counted, Settings.firstDelimiter, SubParser.settings, mode, Library.inOrder_iff.mp order]
  | size => exact parseBySize_call parse user waiting filled orderly mode
  | _ => simp [mode, ParseMode.Buffers] at buffers

theorem write_mishap (disorderly : ¬Orderly p buf) :
    Mishap parse user p buf (writeIntoParser parse user fresh p buf) := by
  have buffers := waiting.buffers
  simp only [writeIntoParser, filled, if_false]
  by_cases room : p.unparsedBuffer.getSizeLeft ≠ 0 → HasRoom p buf
  · have disorder : ¬(p.parseMode = .multiDelimiter →
        Library.InOrder p.parseMultiDelimiter ((p.pending ++ buf).take p.unparsedBuffer.limits.maxSize)) :=
      fun order => disorderly ⟨room, order⟩
    obtain ⟨mode, disorder⟩ := Classical.not_imp.mp disorder
    rw [mode]
    exact parseByMultiDelimiter_mishap parse user waiting filled mode room disorder
  · obtain ⟨left, crowded⟩ := Classical.not_imp.mp room
    cases mode : p.parseMode with
    | delimiter => exact parseUpTo_mishap parse user waiting filled _ _ left crowded
    | multiDelimiter => exact parseUpTo_mishap parse user waiting filled _ _ left crowded
    | size => exact parseBySize_mishap parse user waiting filled left crowded
    | _ => simp [mode, ParseMode.Buffers] at buffers

end

end

end Mantids.Memory.Streams
