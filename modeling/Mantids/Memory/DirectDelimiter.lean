import Mantids.Memory.CopyOut
import Mantids.Memory.Find
import Mantids.Memory.Parser

/-! Content handed over as it arrives, up to a delimiter: what `parseDirectDelimiter` keeps
back decides whether a split inside the delimiter is noticed. -/

set_option autoImplicit false

namespace Mantids.Memory.Streams

namespace Presented

def parsedBuffer : Presented → Bytes
  | .element parsedBuffer _ => parsedBuffer
  | .direct parsedBuffer _ => parsedBuffer

/-- Whether `getDelimiterFound()` has a size. -/
def reported : Presented → Bool
  | .element _ (some delimiterFound) => delimiterFound ≠ []
  | _ => false

end Presented

def untilDelimiter (delimiter : Bytes) : Settings :=
  { Settings.new with parseMode := .directDelimiter, parseDelimiter := delimiter }

/-- `MIME_Sub_Content::parse` as the only sub parser. The state counts its calls, and
`malloc` finds other memory at each of them. -/
def contentProtocol (memory : Nat → Fresh) : Protocol Nat where
  parse := fun calls settings presented =>
    (if presented.reported then .gotoNextSubParser else .getMoreData, settings, calls + 1)
  changeToNextParser := fun calls => some (none, calls)
  fresh := memory
  maxTTL := 4096

/-- The content has been handed over, no more and no less, and the delimiter reported once. -/
structure Exact (outcome : Outcome Nat) (content : Bytes) (consumed : Nat) : Prop where
  handed : outcome.presented.flatMap Presented.parsedBuffer = content
  once : outcome.presented.countP Presented.reported = 1
  finished : outcome.verdict = .finished
  bytes : outcome.consumed = consumed

/-- The sub parser with the write appended. -/
def grown (p : SubParser) (buf : Bytes) : SubParser :=
  { p with unparsedBuffer := (p.unparsedBuffer.append buf).2 }

/-- Some comparison of at least the last `begun` bytes finds no difference. -/
def KeepsBack (fresh : Fresh) (p : SubParser) (buf : Bytes) (begun : Nat) : Prop :=
  ∃ v, begun ≤ v ∧ v < p.parseDelimiter.length ∧ v ≤ (grown p buf).unparsedBuffer.size ∧
    (grown p buf).lastBytesMatch fresh p.parseDelimiter v = true

/-- No write is beyond the memory of a container. -/
def Fits (delimiter buf : Bytes) : Prop :=
  delimiter.length + Limits.default.chunkCount buf.length ≤ Limits.default.maxChunks ∧
    delimiter.length + buf.length < 2 ^ 64

/-- A sub parser between two writes. -/
structure Holding (delimiter : Bytes) (p : SubParser) : Prop where
  mode : p.parseMode = .directDelimiter
  searched : p.parseDelimiter = delimiter
  running : p.streamEnded = false
  counted : p.unparsedBuffer.Counted
  limits : p.unparsedBuffer.limits = Limits.default
  nonempty : ∀ chunk ∈ p.unparsedBuffer.chunksVector, chunk.size ≠ 0
  short : p.pending.length < delimiter.length

theorem holding_new {delimiter : Bytes} (some : delimiter ≠ []) : Holding delimiter (.new (untilDelimiter delimiter)) where
  mode := rfl
  searched := rfl
  running := rfl
  counted := ⟨rfl, Nat.two_pow_pos 64⟩
  limits := rfl
  nonempty := fun _ none => absurd none List.not_mem_nil
  short := List.length_pos_of_ne_nil some

theorem configure_settings (p : SubParser) : p.configure p.settings = p := rfl

section
variable {p : SubParser} {fresh : Fresh} {boundary : Bytes}

/-- The longest comparison without a difference. -/
theorem lastBytesLoop_spec (bound : Nat) : p.lastBytesLoop fresh boundary bound ≤ bound ∧
    (p.lastBytesLoop fresh boundary bound ≠ 0 → p.lastBytesMatch fresh boundary (p.lastBytesLoop fresh boundary bound)) ∧
    ∀ v ≤ bound, p.lastBytesMatch fresh boundary v → v ≤ p.lastBytesLoop fresh boundary bound := by
  induction bound with
  | zero =>
    refine ⟨Nat.le_refl 0, fun some => absurd rfl some, ?_⟩
    intro v le _
    exact le
  | succ bound ih =>
    obtain ⟨le, same, max⟩ := ih
    rw [SubParser.lastBytesLoop]
    split
    · rename_i here
      exact ⟨Nat.le_refl _, fun _ => here, fun v le _ => le⟩
    · rename_i differs
      refine ⟨Nat.le_succ_of_le le, same, fun v inside here => ?_⟩
      rcases Nat.le_succ_iff.mp inside with before | rfl
      · exact max v before here
      · exact absurd here differs

end

section
variable {delimiter : Bytes} {p : SubParser} (holding : Holding delimiter p) {buf : Bytes} (fits : Fits delimiter buf)
include holding

theorem Holding.length_pending : p.pending.length = p.unparsedBuffer.containerBytes := by
  rw [SubParser.pending, length_content, holding.counted.bytes]

include fits

theorem grown_appended (filled : buf ≠ []) :
    p.unparsedBuffer.append buf = ((true, buf.length), (grown p buf).unparsedBuffer) ∧
      BChunks.Appended p.unparsedBuffer buf (grown p buf).unparsedBuffer := by
  have limits := holding.limits
  have short := holding.short
  have chunks := BChunks.length_le_of_nonempty holding.nonempty
  obtain ⟨room, word⟩ := fits
  rw [← holding.counted.bytes, ← holding.length_pending] at chunks
  obtain ⟨c, result, appended⟩ := BChunks.append_appended holding.counted (by rw [limits]; decide) filled
    (by rw [limits, ← holding.length_pending]; show _ ≤ 2 ^ 64 - 1; omega) (by rw [limits]; omega)
  have same : (grown p buf).unparsedBuffer = c := by
    rw [grown, result]
  rw [same]
  exact ⟨result, appended⟩

variable (filled : buf ≠ [])
include filled

theorem pending_grown : (grown p buf).pending = p.pending ++ buf :=
  (grown_appended holding fits filled).2.content

theorem size_grown : (grown p buf).unparsedBuffer.size = (p.pending ++ buf).length := by
  obtain ⟨-, appended⟩ := grown_appended holding fits filled
  rw [BChunks.size, appended.counted.bytes, ← length_content, appended.content, SubParser.pending]

end

/-- The bytes that the sub parser keeps back. -/
def held (fresh : Fresh) (p : SubParser) (buf : Bytes) : Nat :=
  (grown p buf).getLastBytesInCommon fresh p.parseDelimiter

/-- The sub parser after a write without the delimiter. -/
def keeping (fresh : Fresh) (p : SubParser) (buf : Bytes) : SubParser :=
  if held fresh p buf = 0 then (grown p buf).clear
  else
    { grown p buf with
      unparsedBuffer :=
        ((grown p buf).unparsedBuffer.displace ((grown p buf).unparsedBuffer.size - held fresh p buf)).2 }

section
variable {delimiter : Bytes} {p : SubParser} (holding : Holding delimiter p) {buf : Bytes} (fits : Fits delimiter buf)
  (filled : buf ≠ []) (memory : Nat → Fresh) (calls : Nat)
include holding fits

theorem stick_direct : p.stick buf = buf := by
  have fitting := fits.2
  have short := holding.short
  unfold SubParser.stick
  rw [if_neg]
  rintro ⟨less, -⟩
  rw [BChunks.getSizeLeft, BChunks.size, holding.limits, ← holding.length_pending, if_neg] at less
  · have maxSize : Limits.default.maxSize = 2 ^ 64 - 1 := rfl
    omega
  · show ¬2 ^ 64 - 1 < _
    omega

include filled

omit fits in
theorem dispatch_direct : writeIntoParser (contentProtocol memory).parse calls (memory calls) p buf =
    parseDirectDelimiter (contentProtocol memory).parse calls (memory calls) p buf := by
  simp only [writeIntoParser, filled, if_false, holding.mode]

theorem find_grown : (grown p buf).unparsedBuffer.find p.parseDelimiter =
    Library.occurrence delimiter (p.pending ++ buf) := by
  obtain ⟨-, appended⟩ := grown_appended holding fits filled
  rw [BChunks.find_eq appended.counted, appended.content, holding.searched]
  rfl

theorem write_missing (missing : Library.occurrence delimiter (p.pending ++ buf) = none) :
    writeIntoParser (contentProtocol memory).parse calls (memory calls) p buf =
      ⟨some buf.length, .getMoreData, keeping (memory calls) p buf, calls + 1,
        [.element ((p.pending ++ buf).take ((p.pending ++ buf).length - held (memory calls) p buf)) (some [])]⟩ := by
  obtain ⟨result, -⟩ := grown_appended holding fits filled
  have find := find_grown holding fits filled
  rw [missing] at find
  have same : ({ p with unparsedBuffer := (grown p buf).unparsedBuffer } : SubParser) = grown p buf := rfl
  rw [dispatch_direct holding filled, parseDirectDelimiter]
  simp only [stick_direct holding fits, filled, if_false, result, Bool.true_eq_false, same, find,
    pending_grown holding fits filled, size_grown holding fits filled]
  simp only [contentProtocol, Presented.reported, configure_settings, keeping, size_grown holding fits filled, ne_eq,
    not_true_eq_false, decide_false, Bool.false_eq_true, if_false]
  rfl

theorem write_found {pos : Nat} (found : Library.occurrence delimiter (p.pending ++ buf) = some pos) :
    ∃ p' taken, writeIntoParser (contentProtocol memory).parse calls (memory calls) p buf =
        ⟨some taken, .gotoNextSubParser, p', calls + 1,
          [.element ((p.pending ++ buf).take pos) (some delimiter)]⟩ ∧
      p.pending.length + taken = pos + delimiter.length := by
  obtain ⟨result, -⟩ := grown_appended holding fits filled
  have short := holding.short
  have some : delimiter ≠ [] := List.ne_nil_of_length_pos (by omega)
  have inside := Library.occurrence_end_le found
  have word := fits.2
  rw [List.length_append] at inside
  have find := find_grown holding fits filled
  rw [found] at find
  have same : ({ p with unparsedBuffer := (grown p buf).unparsedBuffer } : SubParser) = grown p buf := rfl
  refine ⟨(grown p buf).clear, bytesToDisplace pos delimiter.length p.pending.length, ?_, ?_⟩
  · rw [dispatch_direct holding filled, parseDirectDelimiter]
    simp only [stick_direct holding fits, filled, if_false, result, Bool.true_eq_false, same, find,
      pending_grown holding fits filled, present]
    simp only [contentProtocol, Presented.reported, configure_settings, holding.searched, ne_eq, some,
      not_false_eq_true, decide_true, if_true, holding.length_pending]
    rfl
  · exact bytesToDisplace_add (by omega) (by omega)

theorem held_spec : held (memory calls) p buf < delimiter.length ∧
    held (memory calls) p buf ≤ (p.pending ++ buf).length ∧
    ∀ begun, 0 < begun → (begun ≤ held (memory calls) p buf ↔ KeepsBack (memory calls) p buf begun) := by
  have short := holding.short
  have size := size_grown holding fits filled
  have loop : held (memory calls) p buf = (grown p buf).lastBytesLoop (memory calls) delimiter
      (min (delimiter.length - 1) (p.pending ++ buf).length) := by
    rw [held, SubParser.getLastBytesInCommon, holding.searched, size]
    congr 1
    split <;> omega
  obtain ⟨le, same, max⟩ := lastBytesLoop_spec (p := grown p buf) (min (delimiter.length - 1) (p.pending ++ buf).length)
  rw [← loop] at le same max
  refine ⟨by omega, by omega, fun begun some => ?_⟩
  unfold KeepsBack
  rw [holding.searched, size]
  constructor
  · intro enough
    exact ⟨held (memory calls) p buf, enough, by omega, by omega, same (by omega)⟩
  · rintro ⟨v, enough, proper, inside, here⟩
    exact Nat.le_trans enough (max v (by omega) here)

theorem displace_grown : ((grown p buf).unparsedBuffer.displace
      ((grown p buf).unparsedBuffer.size - held (memory calls) p buf)).2 =
    { (grown p buf).unparsedBuffer with
      chunksVector := BChunks.recalcChunkOffsets (BChunks.cut (grown p buf).unparsedBuffer.chunksVector
        ((p.pending ++ buf).length - held (memory calls) p buf))
      containerBytes := held (memory calls) p buf } := by
  obtain ⟨-, appended⟩ := grown_appended holding fits filled
  obtain ⟨-, inside, -⟩ := held_spec holding fits filled memory calls
  rw [BChunks.displace_eq appended.counted, size_grown holding fits filled, Nat.min_eq_left (Nat.sub_le ..),
    Nat.sub_sub_self inside]

theorem pending_keeping : (keeping (memory calls) p buf).pending =
    (p.pending ++ buf).drop ((p.pending ++ buf).length - held (memory calls) p buf) := by
  unfold keeping
  split
  · rename_i nothing
    rw [nothing, Nat.sub_zero, List.drop_length]
    rfl
  · rw [displace_grown holding fits filled, ← pending_grown holding fits filled, SubParser.pending,
      BChunks.content_recalcChunkOffsets, BChunks.content_cut]
    rfl

theorem holding_keeping : Holding delimiter (keeping (memory calls) p buf) := by
  obtain ⟨-, appended⟩ := grown_appended holding fits filled
  obtain ⟨proper, inside, -⟩ := held_spec holding fits filled memory calls
  have pending := pending_keeping holding fits filled memory calls
  have short : (keeping (memory calls) p buf).pending.length < delimiter.length := by
    rw [pending, List.length_drop]
    omega
  have nonempty := BChunks.nonempty_append (c := p.unparsedBuffer) (by rw [holding.limits]; decide) holding.nonempty buf
  have limits : (grown p buf).unparsedBuffer.limits = Limits.default := by rw [appended.limits, holding.limits]
  unfold keeping at short ⊢
  split
  · rename_i nothing
    rw [if_pos nothing] at short
    exact ⟨holding.mode, holding.searched, holding.running, ⟨rfl, Nat.two_pow_pos 64⟩, limits,
      fun _ none => absurd none List.not_mem_nil, short⟩
  · rename_i some
    rw [if_neg some] at short
    rw [displace_grown holding fits filled] at short ⊢
    have word := fits.2
    have size := size_grown holding fits filled
    refine ⟨holding.mode, holding.searched, holding.running, ⟨?_, ?_⟩, limits, ?_, short⟩
    · rw [← length_content, BChunks.content_recalcChunkOffsets, length_content, BChunks.totalSize_cut,
        ← appended.counted.bytes]
      rw [BChunks.size] at size
      rw [size, Nat.sub_sub_self inside]
    · show held (memory calls) p buf < 2 ^ 64
      omega
    · exact BChunks.nonempty_recalc (BChunks.nonempty_cut _ nonempty)

/-! ## One write to the parser -/

theorem parse_missing (turns : Nat) (missing : Library.occurrence delimiter (p.pending ++ buf) = none) :
    (contentProtocol memory).parseData (turns + 1) ⟨some p, calls⟩ buf =
      ⟨.open, ⟨some (keeping (memory calls) p buf), calls + 1⟩, buf.length,
        [.element ((p.pending ++ buf).take ((p.pending ++ buf).length - held (memory calls) p buf)) (some [])],
        [(p, buf)]⟩ := by
  have written := write_missing holding fits filled memory calls missing
  simp only [Protocol.parseData, show (contentProtocol memory).fresh calls = memory calls from rfl, written,
    Protocol.turn, ne_eq, not_true_eq_false, and_false, if_false]

theorem parse_found (turns : Nat) {pos : Nat} (found : Library.occurrence delimiter (p.pending ++ buf) = some pos) :
    ∃ taken, (contentProtocol memory).parseData (turns + 1) ⟨some p, calls⟩ buf =
        ⟨.finished, ⟨none, calls + 1⟩, taken, [.element ((p.pending ++ buf).take pos) (some delimiter)], [(p, buf)]⟩ ∧
      p.pending.length + taken = pos + delimiter.length := by
  obtain ⟨p', taken, written, count⟩ := write_found holding fits filled memory calls found
  refine ⟨taken, ?_, count⟩
  simp only [Protocol.parseData, show (contentProtocol memory).fresh calls = memory calls from rfl, written,
    Protocol.turn, show (contentProtocol memory).changeToNextParser (calls + 1) = some (none, calls + 1) from rfl,
    reduceCtorEq, false_and, if_false]

/-! ## Runs -/

/-- The outcome of a run from here is exact for the bytes that wait and those to come. -/
def ExactFrom (memory : Nat → Fresh) (delimiter : Bytes) (p : SubParser) (calls : Nat) (writes : List Bytes) (m : Nat) :
    Prop :=
  Exact ((contentProtocol memory).run ⟨some p, calls⟩ writes) ((p.pending ++ writes.flatten).take m)
    (m + delimiter.length - p.pending.length)

theorem exactFrom_found {pos : Nat} (found : Library.occurrence delimiter (p.pending ++ buf) = some pos)
    (later : List Bytes) : ExactFrom memory delimiter p calls (buf :: later) pos := by
  have some : delimiter ≠ [] := List.ne_nil_of_length_pos (Nat.lt_of_le_of_lt (Nat.zero_le _) holding.short)
  have inside := Library.occurrence_end_le found
  obtain ⟨taken, parsed, count⟩ := parse_found holding fits filled memory calls 4096 found
  have run : (contentProtocol memory).run ⟨.some p, calls⟩ (buf :: later) =
      ⟨[.element ((p.pending ++ buf).take pos) (.some delimiter)], taken, .finished, calls + 1⟩ := by
    rw [Protocol.run, Protocol.write, show (contentProtocol memory).maxTTL = 4096 from rfl, parsed]
    rfl
  unfold ExactFrom
  rw [run]
  have before : pos ≤ (p.pending ++ buf).length := by omega
  refine ⟨?_, ?_, rfl, ?_⟩
  · show (p.pending ++ buf).take pos ++ [] = _
    rw [List.append_nil, List.flatten_cons, ← List.append_assoc, List.take_append_of_le_length before]
  · simp [Presented.reported, some]
  · show taken = pos + delimiter.length - p.pending.length
    omega

theorem drop_flatten (later : List Bytes) :
    (p.pending ++ (buf :: later).flatten).drop ((p.pending ++ buf).length - held (memory calls) p buf) =
      (keeping (memory calls) p buf).pending ++ later.flatten := by
  rw [List.flatten_cons, ← List.append_assoc, List.drop_append_of_le_length (Nat.sub_le ..),
    pending_keeping holding fits filled]

section
variable (missing : Library.occurrence delimiter (p.pending ++ buf) = none) {later : List Bytes} {m : Nat}
include missing

theorem run_missing : (contentProtocol memory).run ⟨some p, calls⟩ (buf :: later) =
    ((contentProtocol memory).run ⟨some (keeping (memory calls) p buf), calls + 1⟩ later).after
      [.element ((p.pending ++ buf).take ((p.pending ++ buf).length - held (memory calls) p buf)) (some [])]
      buf.length := by
  rw [Protocol.run, Protocol.write, show (contentProtocol memory).maxTTL = 4096 from rfl,
    parse_missing holding fits filled memory calls 4096 missing]
  rfl

variable (first : Library.occurrence delimiter (p.pending ++ (buf :: later).flatten) = some m)
include first

omit missing in
/-- What is kept back goes on like the whole, if the delimiter is still in it. -/
theorem occurrence_keeping (safe : (p.pending ++ buf).length - held (memory calls) p buf ≤ m) :
    Library.occurrence delimiter ((keeping (memory calls) p buf).pending ++ later.flatten) =
      some (m - ((p.pending ++ buf).length - held (memory calls) p buf)) := by
  have rest := drop_flatten holding fits filled memory calls later
  obtain ⟨-, -, before⟩ := Library.occurrence_eq_some_iff.mp first
  have dropped := Library.occurrence_drop fun i less => before i (Nat.lt_of_lt_of_le less safe)
  rw [first, rest] at dropped
  obtain ⟨pos, found, same⟩ := Option.map_eq_some_iff.mp dropped.symm
  rw [found, Option.some_inj]
  omega

theorem exactFrom_missing_iff (safe : (p.pending ++ buf).length - held (memory calls) p buf ≤ m) :
    ExactFrom memory delimiter p calls (buf :: later) m ↔
      ExactFrom memory delimiter (keeping (memory calls) p buf) (calls + 1) later
        (m - ((p.pending ++ buf).length - held (memory calls) p buf)) := by
  have rest := drop_flatten holding fits filled memory calls later
  have kept := congrArg List.length (pending_keeping holding fits filled memory calls)
  obtain ⟨-, inside, -⟩ := held_spec holding fits filled memory calls
  have incomplete : (p.pending ++ buf).length ≤ m + delimiter.length := by
    apply Library.le_end_of_occurrence first
    rw [List.flatten_cons, ← List.append_assoc, List.take_left' rfl]
    exact missing
  rw [List.length_drop] at kept
  have front : (p.pending ++ (buf :: later).flatten).take ((p.pending ++ buf).length - held (memory calls) p buf) =
      (p.pending ++ buf).take ((p.pending ++ buf).length - held (memory calls) p buf) := by
    rw [List.flatten_cons, ← List.append_assoc, List.take_append_of_le_length (Nat.sub_le ..)]
  have whole : (p.pending ++ (buf :: later).flatten).take m =
      (p.pending ++ buf).take ((p.pending ++ buf).length - held (memory calls) p buf) ++
        ((keeping (memory calls) p buf).pending ++ later.flatten).take
          (m - ((p.pending ++ buf).length - held (memory calls) p buf)) := by
    rw [← front, ← rest, ← List.take_add, Nat.add_sub_cancel' safe]
  unfold ExactFrom
  rw [run_missing holding fits filled memory calls missing, whole]
  constructor
  · rintro ⟨handed, once, finished, bytes⟩
    refine ⟨List.append_cancel_left handed, ?_, finished, ?_⟩
    · simpa [Outcome.after, Presented.reported] using once
    · simp only [Outcome.after, List.length_append] at bytes kept safe inside ⊢
      omega
  · rintro ⟨handed, once, finished, bytes⟩
    refine ⟨?_, ?_, finished, ?_⟩
    · rw [← handed]
      rfl
    · simpa [Outcome.after, Presented.reported] using once
    · simp only [Outcome.after, List.length_append] at bytes kept safe inside incomplete ⊢
      omega

omit first in
theorem not_exactFrom_missing (lost : m < (p.pending ++ buf).length - held (memory calls) p buf) :
    ¬ExactFrom memory delimiter p calls (buf :: later) m := by
  intro exact
  have handed := congrArg List.length exact.handed
  rw [run_missing holding fits filled memory calls missing] at handed
  simp only [Outcome.after, List.cons_append, List.flatMap_cons, Presented.parsedBuffer, List.length_append,
    List.length_take] at handed
  simp only [List.length_append] at lost
  omega

end

end

/-- Every write that ends inside the delimiter, which begins after `m` bytes, keeps back
what has come of it. -/
def KeepsDelimiter (memory : Nat → Fresh) (p : SubParser) (calls : Nat) (writes : List Bytes) (m : Nat) : Prop :=
  ∀ i q buf begun, ((contentProtocol memory).calls ⟨some p, calls⟩ writes)[i]? = some (q, buf) →
    0 < begun → begun < p.parseDelimiter.length →
    p.pending.length + (writes.take (i + 1)).flatten.length = m + begun → KeepsBack (memory (calls + i)) q buf begun

/-- A delimiter that a prefix does not hold ends after it. -/
theorem length_lt_of_missing {delimiter pending buf : Bytes} (short : pending.length < delimiter.length)
    (missing : Library.occurrence delimiter (pending ++ buf) = none) {later : List Bytes} {m : Nat}
    (first : Library.occurrence delimiter (pending ++ (buf :: later).flatten) = some m) :
    (pending ++ buf).length < m + delimiter.length := by
  by_contra complete
  have front : (pending ++ (buf :: later).flatten).take (pending ++ buf).length = pending ++ buf := by
    rw [List.flatten_cons, ← List.append_assoc, List.take_left' rfl]
  have found := Library.occurrence_take_eq_some_iff.mpr
    ⟨first, (by omega : m < (pending ++ buf).length), by omega⟩
  rw [front, missing] at found
  contradiction

section
variable {delimiter : Bytes} {p : SubParser} (holding : Holding delimiter p) {buf : Bytes} (fits : Fits delimiter buf)
  (filled : buf ≠ []) (memory : Nat → Fresh) (calls : Nat)
include holding fits filled

theorem calls_found {pos : Nat} (found : Library.occurrence delimiter (p.pending ++ buf) = some pos)
    (later : List Bytes) : (contentProtocol memory).calls ⟨some p, calls⟩ (buf :: later) = [(p, buf)] := by
  obtain ⟨taken, parsed, -⟩ := parse_found holding fits filled memory calls 4096 found
  rw [Protocol.calls, Protocol.write, show (contentProtocol memory).maxTTL = 4096 from rfl, parsed]
  rfl

theorem calls_missing (missing : Library.occurrence delimiter (p.pending ++ buf) = none) (later : List Bytes) :
    (contentProtocol memory).calls ⟨some p, calls⟩ (buf :: later) =
      (p, buf) :: (contentProtocol memory).calls ⟨some (keeping (memory calls) p buf), calls + 1⟩ later := by
  rw [Protocol.calls, Protocol.write, show (contentProtocol memory).maxTTL = 4096 from rfl,
    parse_missing holding fits filled memory calls 4096 missing]
  rfl

theorem keepsDelimiter_cons_iff (missing : Library.occurrence delimiter (p.pending ++ buf) = none)
    {later : List Bytes} {m : Nat} (safe : (p.pending ++ buf).length - held (memory calls) p buf ≤ m) :
    KeepsDelimiter memory p calls (buf :: later) m ↔
      KeepsDelimiter memory (keeping (memory calls) p buf) (calls + 1) later
        (m - ((p.pending ++ buf).length - held (memory calls) p buf)) := by
  have kept := congrArg List.length (pending_keeping holding fits filled memory calls)
  obtain ⟨-, inside, keeps⟩ := held_spec holding fits filled memory calls
  have same : (keeping (memory calls) p buf).parseDelimiter = p.parseDelimiter := by
    rw [(holding_keeping holding fits filled memory calls).searched, holding.searched]
  rw [List.length_drop] at kept
  unfold KeepsDelimiter
  rw [calls_missing holding fits filled memory calls missing, same]
  constructor
  · intro all i q buf' begun called some less position
    have step := all (i + 1) q buf' begun (by simpa using called) some less
    rw [List.take_succ_cons, List.flatten_cons, List.length_append] at step
    rw [Nat.add_assoc, Nat.add_comm 1 i]
    apply step
    rw [List.length_append] at safe inside kept position
    omega
  · intro all i q buf' begun called some less position
    cases i with
    | zero =>
      simp only [List.getElem?_cons_zero, Option.some.injEq, Prod.mk.injEq] at called
      obtain ⟨rfl, rfl⟩ := called
      simp only [Nat.zero_add, List.take_succ_cons, List.take_zero, List.flatten_singleton] at position
      rw [List.length_append] at safe
      exact (keeps begun some).mp (by omega)
    | succ i =>
      rw [List.take_succ_cons, List.flatten_cons, List.length_append] at position
      have step := all i q buf' begun (by simpa using called) some less
      rw [Nat.add_assoc, Nat.add_comm 1 i] at step
      apply step
      rw [List.length_append] at safe inside kept ⊢
      omega

end

theorem exactFrom_iff {memory : Nat → Fresh} {delimiter : Bytes} {p : SubParser} (holding : Holding delimiter p)
    (calls : Nat) {writes : List Bytes} (filled : ∀ buf ∈ writes, buf ≠ []) (fits : ∀ buf ∈ writes, Fits delimiter buf)
    {m : Nat} (first : Library.occurrence delimiter (p.pending ++ writes.flatten) = some m) :
    ExactFrom memory delimiter p calls writes m ↔ KeepsDelimiter memory p calls writes m := by
  induction writes generalizing p calls m with
  | nil =>
    have short := holding.short
    have inside := Library.occurrence_end_le first
    rw [List.flatten_nil, List.append_nil] at inside
    omega
  | cons buf later ih =>
    rw [List.forall_mem_cons] at filled fits
    cases here : Library.occurrence delimiter (p.pending ++ buf) with
    | some pos =>
      have whole := Library.occurrence_append here (t := later.flatten)
      rw [List.append_assoc, ← List.flatten_cons, first] at whole
      cases whole
      have inside := Library.occurrence_end_le here
      have single := calls_found holding fits.1 filled.1 memory calls here later
      refine iff_of_true (exactFrom_found holding fits.1 filled.1 memory calls here later) ?_
      intro i q buf' begun called some less position
      rw [single] at called
      cases i with
      | zero =>
        rw [holding.searched] at less
        rw [List.length_append] at inside
        simp only [Nat.zero_add, List.take_succ_cons, List.take_zero, List.flatten_singleton] at position
        omega
      | succ i => simp at called
    | none =>
      by_cases safe : (p.pending ++ buf).length - held (memory calls) p buf ≤ m
      · rw [exactFrom_missing_iff holding fits.1 filled.1 memory calls here first safe,
          ih (holding_keeping holding fits.1 filled.1 memory calls) (calls + 1) filled.2 fits.2
            (occurrence_keeping holding fits.1 filled.1 memory calls first safe)]
        exact (keepsDelimiter_cons_iff holding fits.1 filled.1 memory calls here safe).symm
      · rw [Nat.not_le] at safe
        refine iff_of_false (not_exactFrom_missing holding fits.1 filled.1 memory calls here safe) fun keeps => ?_
        obtain ⟨-, -, back⟩ := held_spec holding fits.1 filled.1 memory calls
        have begun := length_lt_of_missing holding.short here first
        have position : p.pending.length + ((buf :: later).take 1).flatten.length =
            m + ((p.pending ++ buf).length - m) := by
          simp only [List.take_succ_cons, List.take_zero, List.flatten_singleton, List.length_append] at safe ⊢
          omega
        have kept := keeps 0 p buf ((p.pending ++ buf).length - m)
          (by rw [calls_missing holding fits.1 filled.1 memory calls here]; rfl) (by omega)
          (by rw [holding.searched]; omega) position
        have enough := (back _ (by omega)).mpr kept
        omega

/-- A stream `content ++ delimiter ++ rest`, whose first delimiter is right after the
content, in writes that fit. -/
structure Delivery (delimiter content rest : Bytes) (writes : List Bytes) : Prop where
  first : Library.occurrence delimiter (content ++ delimiter ++ rest) = some content.length
  split : writes.flatten = content ++ delimiter ++ rest
  filled : ∀ buf ∈ writes, buf ≠ []
  fits : ∀ buf ∈ writes, Fits delimiter buf

/-- The delivery ends in an exact outcome, whatever `malloc` finds. -/
def Delivers (memory : Nat → Fresh) (delimiter content : Bytes) (writes : List Bytes) : Prop :=
  Exact ((contentProtocol memory).run ⟨some (.new (untilDelimiter delimiter)), 0⟩ writes) content
    (content.length + delimiter.length)

/-- The stream is handed over exactly up to its first delimiter, which is reported once,
exactly when every write that ends inside that delimiter keeps back what has come of it. -/
theorem delivers_iff_keepsDelimiter {delimiter content rest : Bytes} (some : delimiter ≠ []) {writes : List Bytes}
    (delivery : Delivery delimiter content rest writes) (memory : Nat → Fresh) :
    Delivers memory delimiter content writes ↔
      KeepsDelimiter memory (.new (untilDelimiter delimiter)) 0 writes content.length := by
  have first : Library.occurrence delimiter writes.flatten = .some content.length := by
    rw [delivery.split]
    exact delivery.first
  have taken : writes.flatten.take content.length = content := by
    rw [delivery.split, List.append_assoc, List.take_left' rfl]
  rw [← exactFrom_iff (holding_new some) 0 delivery.filled delivery.fits first, ExactFrom]
  show _ ↔ Exact _ (writes.flatten.take content.length) (content.length + delimiter.length - 0)
  rw [taken, Nat.sub_zero]
  rfl

end Mantids.Memory.Streams
