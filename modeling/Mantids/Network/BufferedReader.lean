import Mantids.Network.StreamBase

/-! Lines from a stream socket through a buffer (`streams_bufferedreader.cpp`). -/

set_option autoImplicit false

namespace Mantids.Network.NetStreams

open Memory

/-- How `recv` reports the end of a stream: with zero, or with an error. -/
inductive StreamEnd where
  | closed
  | failed
  deriving DecidableEq

/-- A socket with the bytes that are still to come. -/
structure Stream where
  left : Bytes
  ending : StreamEnd
  calls : Nat := 0

/-- Nothing for an error. -/
def Stream.partialRead (fragmentation : Fragmentation) (s : Stream) (datalen : Nat) : Option Bytes × Stream :=
  if datalen = 0 then (some [], s)
  else if s.left = [] ∧ s.ending = .failed then (none, s)
  else
    let received := s.left.take (fragmentation.moved s.calls datalen)
    (some received, { s with left := s.left.drop received.length, calls := s.calls + 1 })

/-- The buffer is what it holds in front; the memory behind it is as large as the constructor was told. -/
structure BufferedReader where
  bufferSize : UInt64
  maxBufferSize : UInt64
  buffer : Bytes
  stream : Stream

/-- The constructor does not set `maxBufferSize`, which is what the memory happens to hold. -/
def BufferedReader.new (stream : Stream) (bufferSize indeterminate : UInt64) : BufferedReader :=
  { bufferSize, maxBufferSize := indeterminate, buffer := [], stream }

/-- The delimiter as `memchr` takes it, and the size of the output where that is not a string. -/
structure ReadCall where
  delimiter : UInt8
  len : Option Nat

inductive ReadError where
  | full
  | disconnected
  | maxSizeExceed
  deriving DecidableEq

inductive ReadOutcome where
  | ok (data : Bytes) (after : BufferedReader)
  | failed (error : ReadError) (after : BufferedReader)
  | overflow
  | expired

def ReadOutcome.after : ReadOutcome → Option BufferedReader
  | .ok _ after | .failed _ after => some after
  | .overflow | .expired => none

namespace BufferedReader

/-- The difference is of `size_t`, and is cut to the parameter of `partialRead`. -/
def requested (reader : BufferedReader) : Nat :=
  (reader.maxBufferSize - UInt64.ofNat reader.buffer.length).toNat % 2 ^ 32

def displaceAndCopy (reader : BufferedReader) (call : ReadCall) (dlen : Nat) : ReadOutcome :=
  if call.len.any (· < dlen) then .failed .maxSizeExceed reader
  else
    let buffer := reader.buffer.set (dlen - 1) 0
    .ok (buffer.take dlen) { reader with buffer := buffer.drop dlen }

/-- The turns of the loop. -/
def readTurns (fragmentation : Fragmentation) (call : ReadCall) : (turns : Nat) → BufferedReader → ReadOutcome
  | 0, _ => .expired
  | turns + 1, reader =>
    match reader.buffer.findIdx? (· = call.delimiter) with
    | some needle => reader.displaceAndCopy call (needle + 1)
    | none =>
      if reader.maxBufferSize = UInt64.ofNat reader.buffer.length then .failed .full reader
      else
        match reader.stream.partialRead fragmentation reader.requested with
        | (none, stream) => .failed .disconnected { reader with stream }
        | (some received, stream) =>
          if reader.bufferSize.toNat < reader.buffer.length + received.length then .overflow
          else readTurns fragmentation call turns { reader with buffer := reader.buffer ++ received, stream }

/-! ## Calls that answer -/

/-- What is buffered, and what is still to come. -/
def total (reader : BufferedReader) : Bytes := reader.buffer ++ reader.stream.left

/-- The outcomes of a call, with the bytes of the stream that it has used up: a success gives what is in front up to
the first delimiter, and a failure keeps everything. -/
inductive Answers (reader : BufferedReader) (call : ReadCall) :
    ReadOutcome → (consumed : Bytes) → BufferedReader → Prop where
  | ok (segment : Bytes) (after : BufferedReader) (first : call.delimiter ∉ segment)
      (consumed : reader.total = segment ++ [call.delimiter] ++ after.total) :
      Answers reader call (.ok (segment ++ [0]) after) (segment ++ [call.delimiter]) after
  | failed (error : ReadError) (after : BufferedReader) (kept : reader.buffer <+: after.buffer)
      (same : reader.total = after.total) : Answers reader call (.failed error after) [] after

/-- Whatever the fragmentation, a call ends, and it answers. -/
def Served (reader : BufferedReader) (call : ReadCall) : Prop :=
  ∀ fragmentation, (∃ turns, readTurns fragmentation call turns reader ≠ .expired) ∧
    ∀ turns, readTurns fragmentation call turns reader ≠ .expired →
      ∃ consumed after, reader.Answers call (readTurns fragmentation call turns reader) consumed after

/-- How far the buffer can be filled before nothing more is requested. -/
def reach (reader : BufferedReader) : Nat := reader.buffer.length + reader.requested

/-- The delimiter, the full buffer or an error comes before nothing more is requested or given. -/
def Stops (reader : BufferedReader) (call : ReadCall) : Prop :=
  call.delimiter ∈ reader.total.take reader.reach ∨
    (reader.reach = reader.maxBufferSize.toNat ∧ reader.reach ≤ reader.total.length) ∨
    (reader.stream.ending = .failed ∧ reader.total.length < reader.reach)

instance (reader : BufferedReader) (call : ReadCall) : Decidable (reader.Stops call) :=
  inferInstanceAs (Decidable (_ ∨ _))

/-- The delimiter is buffered, or there is memory for all that can come; and something stops the loop. -/
structure Suffices (reader : BufferedReader) (call : ReadCall) : Prop where
  room : call.delimiter ∈ reader.buffer ∨ min reader.reach reader.total.length ≤ reader.bufferSize.toNat
  stops : reader.Stops call

/-- What holds in every run. -/
structure Bounded (reader : BufferedReader) : Prop where
  allocated : reader.buffer.length ≤ reader.bufferSize.toNat
  maximum : reader.buffer.length ≤ reader.maxBufferSize.toNat

/-! ## One turn -/

/-- Reading moves bytes from the stream into the buffer, and changes nothing else. -/
structure Continues (reader after : BufferedReader) : Prop where
  bufferSize : after.bufferSize = reader.bufferSize
  maxBufferSize : after.maxBufferSize = reader.maxBufferSize
  ending : after.stream.ending = reader.stream.ending
  total : after.total = reader.total
  kept : reader.buffer <+: after.buffer
  reach : after.reach = reader.reach
  maximum : after.buffer.length ≤ after.maxBufferSize.toNat

/-- What a turn of the loop can do. -/
inductive Turn (fragmentation : Fragmentation) (call : ReadCall) (reader : BufferedReader) : Prop where
  | found (buffered : call.delimiter ∈ reader.buffer) (outcome : ReadOutcome) (consumed : Bytes)
      (after : BufferedReader) (answers : reader.Answers call outcome consumed after)
      (bounded : ∀ last ∈ outcome.after, last.Bounded)
      (turn : ∀ turns, readTurns fragmentation call (turns + 1) reader = outcome)
  | full (absent : call.delimiter ∉ reader.buffer) (full : reader.maxBufferSize.toNat = reader.buffer.length)
      (turn : ∀ turns, readTurns fragmentation call (turns + 1) reader = .failed .full reader)
  | gone (absent : call.delimiter ∉ reader.buffer) (ended : reader.stream.ending = .failed)
      (left : reader.stream.left = []) (short : reader.total.length < reader.reach)
      (turn : ∀ turns, readTurns fragmentation call (turns + 1) reader = .failed .disconnected reader)
  | more (absent : call.delimiter ∉ reader.buffer) (notFull : reader.maxBufferSize.toNat ≠ reader.buffer.length)
      (alive : reader.requested = 0 ∨ reader.stream.left ≠ [] ∨ reader.stream.ending = .closed)
      (after : BufferedReader) (continues : reader.Continues after)
      (progress : reader.requested ≠ 0 → reader.stream.left ≠ [] →
        after.stream.left.length < reader.stream.left.length)
      (most : fragmentation.moved reader.stream.calls reader.requested = reader.requested →
        after.buffer.length = min reader.reach reader.total.length)
      (turn : ∀ turns, readTurns fragmentation call (turns + 1) reader =
        if reader.bufferSize.toNat < after.buffer.length then .overflow else readTurns fragmentation call turns after)

section
variable {fragmentation : Fragmentation} {reader after : BufferedReader} {call : ReadCall}

theorem toNat_length (maximum : reader.buffer.length ≤ reader.maxBufferSize.toNat) :
    (UInt64.ofNat reader.buffer.length).toNat = reader.buffer.length := by
  rw [UInt64.toNat_ofNat']
  exact Nat.mod_eq_of_lt (Nat.lt_of_le_of_lt maximum reader.maxBufferSize.toNat_lt)

theorem requested_eq (maximum : reader.buffer.length ≤ reader.maxBufferSize.toNat) :
    reader.requested = (reader.maxBufferSize.toNat - reader.buffer.length) % 2 ^ 32 := by
  have same := toNat_length maximum
  rw [requested, UInt64.toNat_sub_of_le _ _ (by rw [UInt64.le_iff_toNat_le, same]; exact maximum), same]

theorem full_iff (maximum : reader.buffer.length ≤ reader.maxBufferSize.toNat) :
    reader.maxBufferSize = UInt64.ofNat reader.buffer.length ↔ reader.maxBufferSize.toNat = reader.buffer.length := by
  rw [← UInt64.toNat_inj, toNat_length maximum]

theorem length_total : reader.total.length = reader.buffer.length + reader.stream.left.length := by
  rw [total, List.length_append]

theorem continues_refl (maximum : reader.buffer.length ≤ reader.maxBufferSize.toNat) : reader.Continues reader :=
  ⟨rfl, rfl, rfl, rfl, List.prefix_refl _, rfl, maximum⟩

/-- The bytes that a read moves. -/
def received (fragmentation : Fragmentation) (reader : BufferedReader) : Bytes :=
  reader.stream.left.take (fragmentation.moved reader.stream.calls reader.requested)

/-- The reader behind that read. -/
def refilled (fragmentation : Fragmentation) (reader : BufferedReader) : BufferedReader :=
  { reader with
    buffer := reader.buffer ++ received fragmentation reader
    stream := { reader.stream with
      left := reader.stream.left.drop (received fragmentation reader).length
      calls := reader.stream.calls + 1 } }

theorem length_refilled : (refilled fragmentation reader).buffer.length =
    reader.buffer.length + (received fragmentation reader).length := by
  rw [refilled, List.length_append]

theorem total_refilled : (refilled fragmentation reader).total = reader.total := by
  have whole := List.prefix_iff_eq_append.mp
    (List.take_prefix (fragmentation.moved reader.stream.calls reader.requested) reader.stream.left)
  unfold total refilled
  rw [List.append_assoc]
  exact congrArg (reader.buffer ++ ·) whole

theorem received_le (asked : reader.requested ≠ 0) : (received fragmentation reader).length ≤ reader.requested := by
  have moved : fragmentation.moved reader.stream.calls reader.requested ≤ reader.requested :=
    Nat.mod_lt _ (Nat.pos_of_ne_zero asked)
  exact (List.length_take_le _ _).trans moved

theorem continues_refilled (maximum : reader.buffer.length ≤ reader.maxBufferSize.toNat)
    (asked : reader.requested ≠ 0) : reader.Continues (refilled fragmentation reader) := by
  have within := @received_le fragmentation reader asked
  have requested := requested_eq maximum
  have length := @length_refilled fragmentation reader
  have maximum' : (refilled fragmentation reader).buffer.length ≤ reader.maxBufferSize.toNat := by omega
  have requested' := requested_eq maximum'
  have same : (refilled fragmentation reader).maxBufferSize = reader.maxBufferSize := rfl
  have reach : (refilled fragmentation reader).reach = reader.reach := by
    rw [BufferedReader.reach, BufferedReader.reach, requested', requested, same]
    omega
  exact ⟨rfl, rfl, rfl, total_refilled, List.prefix_append _ _, reach, maximum'⟩

theorem left_refilled (left : reader.stream.left ≠ []) :
    (refilled fragmentation reader).stream.left.length < reader.stream.left.length := by
  have positive := List.length_pos_of_ne_nil left
  have moved : 0 < fragmentation.moved reader.stream.calls reader.requested := Nat.succ_pos _
  simp only [refilled, received, List.length_drop, List.length_take]
  omega

theorem answers_displaceAndCopy {needle : Nat} (found : reader.buffer.findIdx? (· = call.delimiter) = some needle) :
    ∃ consumed after, reader.Answers call (reader.displaceAndCopy call (needle + 1)) consumed after := by
  unfold displaceAndCopy
  split
  case isTrue => exact ⟨[], reader, .failed _ _ (List.prefix_refl _) rfl⟩
  case isFalse =>
    obtain ⟨inside, here, before⟩ := List.findIdx?_eq_some_iff_getElem.mp found
    have delimiter : reader.buffer[needle] = call.delimiter := by simpa using here
    have front : call.delimiter ∉ reader.buffer.take needle := by
      intro member
      obtain ⟨index, bound, same⟩ := List.mem_iff_getElem.mp member
      rw [List.length_take] at bound
      rw [List.getElem_take] at same
      exact absurd same (by simpa using before index (by omega))
    have data : (reader.buffer.set needle 0).take (needle + 1) = reader.buffer.take needle ++ [0] := by
      rw [List.take_succ_eq_append_getElem (by rw [List.length_set]; exact inside),
        List.take_set_of_le (Nat.le_refl _), List.getElem_set_self]
    have rest : (reader.buffer.set needle 0).drop (needle + 1) = reader.buffer.drop (needle + 1) :=
      List.drop_set_of_lt (Nat.lt_succ_self _)
    simp only [Nat.add_sub_cancel, data, rest]
    refine ⟨_, _, .ok (reader.buffer.take needle) _ front ?_⟩
    have whole : reader.buffer =
        reader.buffer.take needle ++ [call.delimiter] ++ reader.buffer.drop (needle + 1) := by
      rw [← delimiter, ← List.take_succ_eq_append_getElem inside, List.take_append_drop]
    unfold total
    rw [← List.append_assoc, ← whole]

theorem bounded_displaceAndCopy (bounded : reader.Bounded) (dlen : Nat) :
    ∀ last ∈ (reader.displaceAndCopy call dlen).after, last.Bounded := by
  unfold displaceAndCopy
  split
  case isTrue =>
    intro last same
    cases same
    exact bounded
  case isFalse =>
    intro last same
    cases same
    have less := Nat.sub_le reader.buffer.length dlen
    constructor
    · simpa only [List.length_drop, List.length_set] using less.trans bounded.allocated
    · simpa only [List.length_drop, List.length_set] using less.trans bounded.maximum

theorem length_most (most : fragmentation.moved reader.stream.calls reader.requested = reader.requested) :
    (refilled fragmentation reader).buffer.length = min reader.reach reader.total.length := by
  rw [length_refilled, received, most, List.length_take, reach, length_total]
  omega

theorem turn_of_bounded (bounded : reader.Bounded) : Turn fragmentation call reader := by
  have maximum := bounded.maximum
  cases found : reader.buffer.findIdx? (· = call.delimiter) with
  | some needle =>
    obtain ⟨consumed, after, answers⟩ := answers_displaceAndCopy found
    have buffered : call.delimiter ∈ reader.buffer := by
      obtain ⟨inside, here, before⟩ := List.findIdx?_eq_some_iff_getElem.mp found
      have delimiter : reader.buffer[needle] = call.delimiter := by simpa using here
      exact delimiter ▸ List.getElem_mem inside
    exact .found buffered _ consumed after answers (bounded_displaceAndCopy bounded _)
      fun turns => by simp only [readTurns, found]
  | none =>
    have absent : call.delimiter ∉ reader.buffer := by
      intro member
      exact absurd (List.findIdx?_eq_none_iff.mp found _ member) (by simp)
    by_cases full : reader.maxBufferSize.toNat = reader.buffer.length
    · exact .full absent full fun turns => by simp only [readTurns, found, (full_iff maximum).mpr full, if_true]
    · have room : ¬reader.maxBufferSize = UInt64.ofNat reader.buffer.length :=
        fun same => full ((full_iff maximum).mp same)
      by_cases asked : reader.requested = 0
      · -- a read of nothing
        refine .more absent full (.inl asked) reader (continues_refl maximum) (fun some => absurd asked some) ?_ ?_
        · intro most
          exact absurd (most.trans asked) (Nat.succ_ne_zero _)
        intro turns
        have allocated : ¬reader.bufferSize.toNat < reader.buffer.length + 0 := Nat.not_lt.mpr bounded.allocated
        simp only [readTurns, found, room, if_false, Stream.partialRead, asked, if_true, List.length_nil, allocated,
          List.append_nil, Nat.not_lt.mpr bounded.allocated]
      · by_cases gone : reader.stream.left = [] ∧ reader.stream.ending = .failed
        · refine .gone absent gone.2 gone.1 ?_ fun turns => ?_
          · rw [length_total, gone.1, reach, List.length_nil]
            omega
          · simp only [readTurns, found, room, if_false, Stream.partialRead, asked, gone, and_self, if_true]
        · refine .more absent full ?_ (refilled fragmentation reader) (continues_refilled maximum asked)
            (fun _ left => left_refilled left) length_most fun turns => ?_
          · cases ending : reader.stream.ending with
            | closed => exact .inr (.inr rfl)
            | failed => exact .inr (.inl fun left => gone ⟨left, ending⟩)
          · simp only [readTurns, found, room, if_false, Stream.partialRead, asked, gone, length_refilled]
            rfl

/-! ## One call -/

theorem answers_of_continues {outcome : ReadOutcome} {consumed : Bytes} {last : BufferedReader}
    (continues : reader.Continues after) (answers : after.Answers call outcome consumed last) :
    reader.Answers call outcome consumed last := by
  cases answers with
  | ok segment last first same => exact .ok segment last first (continues.total ▸ same)
  | failed error last kept same => exact .failed error last (continues.kept.trans kept) (continues.total ▸ same)

/-- What was read lies within the memory. -/
theorem Continues.bounded (continues : reader.Continues after)
    (inside : ¬reader.bufferSize.toNat < after.buffer.length) : after.Bounded := by
  constructor
  · rw [continues.bufferSize]
    omega
  · exact continues.maximum

theorem stops_iff_of_continues (continues : reader.Continues after) : after.Stops call ↔ reader.Stops call := by
  simp only [Stops, continues.total, continues.reach, continues.maxBufferSize, continues.ending]

theorem stops_of_buffered (buffered : call.delimiter ∈ reader.buffer) : reader.Stops call := by
  left
  rw [total, reach, List.take_length_add_append]
  exact List.mem_append_left _ buffered

theorem reach_of_full (maximum : reader.buffer.length ≤ reader.maxBufferSize.toNat)
    (full : reader.maxBufferSize.toNat = reader.buffer.length) : reader.reach = reader.buffer.length := by
  rw [reach, requested_eq maximum, full, Nat.sub_self, Nat.zero_mod, Nat.add_zero]

theorem stops_of_full (maximum : reader.buffer.length ≤ reader.maxBufferSize.toNat)
    (full : reader.maxBufferSize.toNat = reader.buffer.length) : reader.Stops call := by
  have reached := reach_of_full maximum full
  refine .inr (.inl ⟨by omega, ?_⟩)
  rw [reached, length_total]
  omega

/-- A read that may go on brings bytes, if anything stops the loop. -/
theorem brings_of_stops (maximum : reader.buffer.length ≤ reader.maxBufferSize.toNat)
    (absent : call.delimiter ∉ reader.buffer) (notFull : reader.maxBufferSize.toNat ≠ reader.buffer.length)
    (alive : reader.requested = 0 ∨ reader.stream.left ≠ [] ∨ reader.stream.ending = .closed)
    (stops : reader.Stops call) : reader.requested ≠ 0 ∧ reader.stream.left ≠ [] := by
  have length := @length_total reader
  obtain comes | full | ended := stops
  · have later : call.delimiter ∉ reader.total.take reader.buffer.length := by
      rw [total, List.take_left]
      exact absent
    constructor
    · intro nothing
      exact later (by simpa only [reach, nothing, Nat.add_zero] using comes)
    · intro left
      have whole : reader.total = reader.buffer := by rw [total, left, List.append_nil]
      exact absent (whole ▸ List.mem_of_mem_take comes)
  · obtain ⟨reached, within⟩ := full
    unfold reach at reached within
    constructor
    · intro nothing
      omega
    · intro left
      rw [left, List.length_nil] at length
      omega
  · obtain ⟨failed, short⟩ := ended
    have asked : reader.requested ≠ 0 := by
      intro nothing
      unfold reach at short
      omega
    exact ⟨asked, (alive.resolve_left asked).resolve_right (by rw [failed]; exact StreamEnd.noConfusion)⟩

/-- The loop ends where something stops it. -/
theorem ends_of_stops (bounded : reader.Bounded) (stops : reader.Stops call) :
    ∃ turns, readTurns fragmentation call turns reader ≠ .expired := by
  -- each read that goes on leaves less of the stream
  induction size : reader.stream.left.length using Nat.strong_induction_on generalizing reader with
  | _ size ih =>
    cases @turn_of_bounded fragmentation reader call bounded with
    | found buffered outcome consumed after answers last turn =>
      refine ⟨1, ?_⟩
      rw [turn 0]
      cases answers <;> exact ReadOutcome.noConfusion
    | full absent full turn => exact ⟨1, by rw [turn 0]; exact ReadOutcome.noConfusion⟩
    | gone absent ended left short turn => exact ⟨1, by rw [turn 0]; exact ReadOutcome.noConfusion⟩
    | more absent notFull alive after continues progress most turn =>
      obtain ⟨asked, left⟩ := brings_of_stops bounded.maximum absent notFull alive stops
      have less := progress asked left
      by_cases outside : reader.bufferSize.toNat < after.buffer.length
      · exact ⟨1, by rw [turn 0, if_pos outside]; exact ReadOutcome.noConfusion⟩
      · obtain ⟨turns, ended⟩ := ih _ (by omega) (continues.bounded outside)
          ((stops_iff_of_continues continues).mpr stops) rfl
        exact ⟨turns + 1, by rw [turn, if_neg outside]; exact ended⟩

/-- And only there, or by writing outside of the memory. -/
theorem unending_of_not_stops (bounded : reader.Bounded) (unstopped : ¬reader.Stops call) (turns : Nat) :
    readTurns fragmentation call turns reader = .expired ∨ readTurns fragmentation call turns reader = .overflow := by
  induction turns generalizing reader with
  | zero => exact .inl rfl
  | succ turns ih =>
    cases @turn_of_bounded fragmentation reader call bounded with
    | found buffered => exact absurd (stops_of_buffered buffered) unstopped
    | full absent full => exact absurd (stops_of_full bounded.maximum full) unstopped
    | gone absent ended left short => exact absurd (.inr (.inr ⟨ended, short⟩)) unstopped
    | more absent notFull alive after continues progress most turn =>
      rw [turn]
      split
      case isTrue => exact .inr rfl
      case isFalse outside =>
        exact ih (continues.bounded outside) fun stops =>
          unstopped ((stops_iff_of_continues continues).mp stops)

theorem length_le_min (reader : BufferedReader) : reader.buffer.length ≤ min reader.reach reader.total.length := by
  rw [length_total, reach]
  omega

/-- With room for all that comes, an outcome is an answer. -/
theorem answers_of_room (bounded : reader.Bounded)
    (room : call.delimiter ∈ reader.buffer ∨ min reader.reach reader.total.length ≤ reader.bufferSize.toNat)
    (turns : Nat) (ended : readTurns fragmentation call turns reader ≠ .expired) :
    ∃ consumed last, reader.Answers call (readTurns fragmentation call turns reader) consumed last := by
  induction turns generalizing reader with
  | zero => exact absurd rfl ended
  | succ turns ih =>
    cases @turn_of_bounded fragmentation reader call bounded with
    | found buffered outcome consumed after answers last turn =>
      rw [turn]
      exact ⟨consumed, after, answers⟩
    | full absent full turn =>
      rw [turn]
      exact ⟨[], reader, .failed _ _ (List.prefix_refl _) rfl⟩
    | gone absent ended left short turn =>
      rw [turn]
      exact ⟨[], reader, .failed _ _ (List.prefix_refl _) rfl⟩
    | more absent notFull alive after continues progress most turn =>
      have memory := room.resolve_left absent
      have within := length_le_min after
      rw [continues.reach, continues.total] at within
      have inside : ¬reader.bufferSize.toNat < after.buffer.length := by omega
      rw [turn, if_neg inside] at ended ⊢
      have memory' : min after.reach after.total.length ≤ after.bufferSize.toNat := by
        rw [continues.reach, continues.total, continues.bufferSize]
        exact memory
      obtain ⟨consumed, last, answers⟩ := ih (continues.bounded inside) (.inr memory') ended
      exact ⟨consumed, last, answers_of_continues continues answers⟩

/-- Without it, some stream gives all at once. -/
theorem overflow_of_not_room (bounded : reader.Bounded)
    (small : ¬(call.delimiter ∈ reader.buffer ∨ min reader.reach reader.total.length ≤ reader.bufferSize.toNat)) :
    ∃ fragmentation, readTurns fragmentation call 1 reader = .overflow := by
  have allocated := bounded.allocated
  have length := @length_total reader
  have absent := fun buffered => small (.inl buffered)
  have less : ¬min reader.reach reader.total.length ≤ reader.bufferSize.toNat := fun fits => small (.inr fits)
  refine ⟨fun _ => reader.requested - 1, ?_⟩
  cases @turn_of_bounded (fun _ => reader.requested - 1) reader call bounded with
  | found buffered => exact absurd buffered absent
  | full absent full =>
    have reached := reach_of_full bounded.maximum full
    omega
  | gone absent ended left short =>
    rw [left, List.length_nil] at length
    omega
  | more absent notFull alive after continues progress most turn =>
    have asked : 0 < reader.requested := by
      unfold reach at less
      omega
    have all : Fragmentation.moved (fun _ => reader.requested - 1) reader.stream.calls reader.requested =
        reader.requested := by
      rw [Fragmentation.moved, Nat.mod_eq_of_lt (by omega)]
      omega
    rw [turn, if_pos (by rw [most all]; omega)]

theorem served_iff (bounded : reader.Bounded) : reader.Served call ↔ reader.Suffices call := by
  constructor
  · intro served
    constructor
    · by_contra small
      obtain ⟨fragmentation, overflow⟩ := overflow_of_not_room bounded small
      have ended : readTurns fragmentation call 1 reader ≠ .expired := by
        rw [overflow]
        exact ReadOutcome.noConfusion
      obtain ⟨consumed, after, answers⟩ := (served fragmentation).2 1 ended
      rw [overflow] at answers
      cases answers
    · by_contra unstopped
      obtain ⟨⟨turns, ended⟩, answered⟩ := served fun _ => 0
      obtain ⟨consumed, after, answers⟩ := answered turns ended
      rw [(unending_of_not_stops bounded unstopped turns).resolve_left ended] at answers
      cases answers
  · intro suffices_ fragmentation
    exact ⟨ends_of_stops bounded suffices_.stops, answers_of_room bounded suffices_.room⟩

theorem bounded_after (bounded : reader.Bounded) (turns : Nat) :
    ∀ last ∈ (readTurns fragmentation call turns reader).after, last.Bounded := by
  induction turns generalizing reader with
  | zero =>
    intro last same
    cases same
  | succ turns ih =>
    cases @turn_of_bounded fragmentation reader call bounded with
    | found buffered outcome consumed after answers last turn =>
      rw [turn]
      exact last
    | full absent full turn =>
      rw [turn]
      exact fun last same => Option.some.inj same ▸ bounded
    | gone absent ended left short turn =>
      rw [turn]
      exact fun last same => Option.some.inj same ▸ bounded
    | more absent notFull alive after continues progress most turn =>
      rw [turn]
      split
      case isTrue =>
        intro last same
        cases same
      case isFalse outside => exact ih (continues.bounded outside)

theorem after_of_answers {outcome : ReadOutcome} {consumed : Bytes}
    (answers : reader.Answers call outcome consumed after) :
    outcome.after = some after ∧ reader.total = consumed ++ after.total := by
  cases answers with
  | ok segment _ first same => exact ⟨rfl, same⟩
  | failed error _ kept same => exact ⟨rfl, same⟩

/-! ## Runs -/

/-- Call after call, however the stream comes in pieces: each ends and answers, and what the calls have used up is the
front of the stream. -/
def Serves (whole : Bytes) : (front : Bytes) → BufferedReader → List ReadCall → Prop
  | _, _, [] => True
  | front, reader, call :: calls => ∀ fragmentation,
    (∃ turns, readTurns fragmentation call turns reader ≠ .expired) ∧
      ∀ turns, readTurns fragmentation call turns reader ≠ .expired →
        ∃ consumed after, reader.Answers call (readTurns fragmentation call turns reader) consumed after ∧
          whole = front ++ consumed ++ after.total ∧ Serves whole (front ++ consumed) after calls

/-- Every reader that a run comes to suffices for its next call. -/
def Sufficient : BufferedReader → List ReadCall → Prop
  | _, [] => True
  | reader, call :: calls => reader.Suffices call ∧
    ∀ fragmentation turns, ∀ after ∈ (readTurns fragmentation call turns reader).after, Sufficient after calls

theorem serves_iff_of_bounded {whole : Bytes} (calls : List ReadCall) :
    ∀ {front : Bytes} {reader : BufferedReader}, reader.Bounded → whole = front ++ reader.total →
      (Serves whole front reader calls ↔ Sufficient reader calls) := by
  induction calls with
  | nil => exact fun _ _ => Iff.rfl
  | cons call calls ih =>
    intro front reader bounded split_
    constructor
    · intro serves
      have served : reader.Served call := by
        intro fragmentation
        refine ⟨(serves fragmentation).1, fun turns ended => ?_⟩
        obtain ⟨consumed, after, answers, -⟩ := (serves fragmentation).2 turns ended
        exact ⟨consumed, after, answers⟩
      refine ⟨(served_iff bounded).mp served, fun fragmentation turns after last => ?_⟩
      have ended : readTurns fragmentation call turns reader ≠ .expired := by
        intro expired
        rw [expired] at last
        cases last
      obtain ⟨consumed, after', answers, parts, rest⟩ := (serves fragmentation).2 turns ended
      obtain rfl : after' = after := Option.some.inj ((after_of_answers answers).1.symm.trans last)
      exact (ih (bounded_after bounded turns _ last) parts).mp rest
    · intro sufficient fragmentation
      obtain ⟨ends, answered⟩ := (served_iff bounded).mpr sufficient.1 fragmentation
      refine ⟨ends, fun turns ended => ?_⟩
      obtain ⟨consumed, after, answers⟩ := answered turns ended
      obtain ⟨last, used⟩ := after_of_answers answers
      have parts : whole = front ++ consumed ++ after.total := by rw [split_, used, List.append_assoc]
      exact ⟨consumed, after, answers, parts,
        (ih (bounded_after bounded turns _ last) parts).mpr (sufficient.2 fragmentation turns after last)⟩

theorem bounded_new (stream : Stream) (bufferSize indeterminate : UInt64) :
    (new stream bufferSize indeterminate).Bounded :=
  ⟨Nat.zero_le _, Nat.zero_le _⟩

end

/-- The reader serves a run of calls exactly if each reader that the run comes to suffices for the next call. -/
theorem serves_iff (stream : Stream) (bufferSize indeterminate : UInt64) (calls : List ReadCall) :
    Serves stream.left [] (new stream bufferSize indeterminate) calls ↔
      Sufficient (new stream bufferSize indeterminate) calls :=
  serves_iff_of_bounded calls (bounded_new stream bufferSize indeterminate) rfl

/-- A stream that is closed after one byte, and no line break. -/
theorem closed_unserved : ¬Serves [97] [] (new ⟨[97], .closed, 0⟩ 8 8) [⟨10, none⟩] := by
  intro serves
  have unstopped : ¬(new ⟨[97], .closed, 0⟩ 8 8).Stops ⟨10, none⟩ := by decide +kernel
  obtain ⟨⟨turns, ended⟩, answered⟩ := serves fun _ => 0
  obtain ⟨consumed, after, answers, -⟩ := answered turns ended
  rw [(unending_of_not_stops (bounded_new _ _ _) unstopped turns).resolve_left ended] at answers
  cases answers

end BufferedReader

end Mantids.Network.NetStreams
