import Mantids.Library.Runs
import Mantids.Network.StreamFraming

/-! A bridge between two sockets in the mode with chunks and pings (`streams_bridge_thread.cpp`, `streams_bridge.cpp`):
two threads write the frames, one reads them. -/

set_option autoImplicit false

namespace Mantids.Network.Bridge

open Memory

/-! ## The pipe -/

/-- What `processPipe` returns: the bytes processed, -1, -2 and -3. It does not know of a block that is written over
its end. -/
inductive Piped where
  | processed (bytesReceived : Nat)
  | readFailed
  | writeFailed
  | ping
  | overrun
  deriving DecidableEq, Repr

/-- What other threads have done when a turn comes to it: the bridge is terminated, or the connection to `src` breaks
behind some bytes of a write. -/
structure Around where
  terminated : Bool
  breaks : Option Nat

section
variable (fragmentation outgoing : Fragmentation)

def sendPing (dst : Sender) : Bool × Sender := dst.writeU outgoing .u16 0

/-- `processPipe` of the forward side: what is read of the raw stream is written with its size. Nothing can be read
into no block. -/
def processPipeForward (blockSize : Fin (2 ^ 16)) (src : Receiver) (dst : Sender) : Piped × Receiver × Sender :=
  if (blockSize : Nat) = 0 then (.readFailed, src, dst)
  else
    match src.partialRead fragmentation blockSize with
    | (none, src) | (some [], src) => (.readFailed, src, dst)
    | (some (byte :: rest), src) =>
      match dst.writeU outgoing .u16 ((byte :: rest).length % 2 ^ 16) with
      | (false, dst) => (.writeFailed, src, dst)
      | (true, dst) =>
        match dst.writeFull outgoing (byte :: rest) with
        | (false, dst) => (.writeFailed, src, dst)
        | (true, dst) => (.processed (byte :: rest).length, src, dst)

/-- `processPipe` of the backward side: a size of zero is a ping, any other one is read to the block. -/
def processPipeBackward (blockSize : Fin (2 ^ 16)) (around : Around) (dst : Receiver) (src : Sender) :
    Piped × Receiver × Sender :=
  match dst.readU fragmentation .u16 with
  | (none, dst) => (.readFailed, dst, src)
  | (some bytesReceived, dst) =>
    if bytesReceived = 0 then (if around.terminated then .writeFailed else .ping, dst, src)
    else
      let (readOK, curBlock, dst) := dst.readFull fragmentation bytesReceived
      -- `readFull` stores what it receives, and is not told how large the block is
      if blockSize < curBlock.length then (.overrun, dst, src)
      else if readOK = false then (.readFailed, dst, src)
      else
        match src.writeFullOn outgoing around.breaks curBlock with
        | (false, src) => (.writeFailed, dst, src)
        | (true, src) => (.processed bytesReceived, dst, src)

/-- `processPeer` of the backward side, with `recvBytes`. Each turn but the last one takes at least the size of a
frame, so there are turns enough. -/
def processPeer (blockSize : Fin (2 ^ 16)) (around : Nat → Around) :
    (turns turn : Nat) → Receiver → Sender → (recvBytes : Nat) → Piped × Sender × Nat
  | 0, _, _, src, recvBytes => (.readFailed, src, recvBytes)
  | turns + 1, turn, dst, src, recvBytes =>
    match processPipeBackward fragmentation outgoing blockSize (around turn) dst src with
    | (.processed n, dst, src) => processPeer blockSize around turns (turn + 1) dst src ((recvBytes + n) % 2 ^ 64)
    | (.ping, dst, src) => processPeer blockSize around turns (turn + 1) dst src recvBytes
    | (ended, _, src) => (ended, src, recvBytes)

/-- The backward side of a bridge until it ends, on a stream that comes in and is closed. -/
def relay (blockSize : Fin (2 ^ 16)) (around : Nat → Around) (stream : Bytes) : Piped × Sender × Nat :=
  processPeer fragmentation outgoing blockSize around (stream.length + 1) 0 { left := stream } {} 0

end

/-! ## The threads that write -/

inductive Message where
  | chunk (data : Bytes)
  | ping
  deriving DecidableEq

namespace Message

def payload : Message → Bytes
  | chunk data => data
  | ping => []

def frame (message : Message) : Bytes := networkOrder Width.u16.bytes message.payload.length ++ message.payload

end Message

def encode (messages : List Message) : Bytes := (messages.map Message.frame).flatten

def payloads (messages : List Message) : Bytes := (messages.map Message.payload).flatten

/-- The sending side of `dst`. `mt_fwd` is held with what its holder has still to write, and `sent` are the messages
begun, in the order in which the lock was taken. -/
structure Outlet where
  wire : Bytes := []
  mtFwd : Option Bytes := none
  shut : Bool := false
  sent : List Message := []

inductive Event where
  | chunk (data : Bytes)
  | ping
  | write (n : Nat)
  | unlock
  | shutdownSocket

namespace Outlet

/-- The lock is taken for a message. On a socket that was shut down the first write fails and there is no message. -/
def begin (s : Outlet) (message : Message) : Outlet :=
  if s.mtFwd = none ∧ s.shut = false then { s with mtFwd := some message.frame, sent := s.sent ++ [message] } else s

/-- One call of the system moves some bytes; the lock goes when all are written or a write has failed. -/
def step (blockSize : Fin (2 ^ 16)) (s : Outlet) : Event → Outlet
  | .chunk data => if data ≠ [] ∧ data.length ≤ blockSize then s.begin (.chunk data) else s
  | .ping => s.begin .ping
  | .write n =>
    if s.shut then s
    else
      { s with
        wire := s.wire ++ (s.mtFwd.getD []).take (n + 1)
        mtFwd := s.mtFwd.map fun todo => todo.drop (n + 1) }
  | .unlock => if s.mtFwd = some [] ∨ s.shut then { s with mtFwd := none } else s
  | .shutdownSocket => { s with shut := true }

/-- After any events of the two threads, in any order. -/
def after (blockSize : Fin (2 ^ 16)) (events : List Event) : Outlet := Library.reached (step blockSize) {} events

end Outlet

/-- The lock keeps the frames whole: what is on the wire are the messages in their order, the last one perhaps cut. -/
structure Framed (blockSize : Fin (2 ^ 16)) (s : Outlet) : Prop where
  front : s.wire <+: encode s.sent
  todo : s.shut = false → s.wire ++ s.mtFwd.getD [] = encode s.sent
  small : ∀ message ∈ s.sent, message.payload.length ≤ blockSize

theorem encode_append (messages : List Message) (message : Message) :
    encode (messages ++ [message]) = encode messages ++ message.frame := by
  simp [encode]

section
variable {blockSize : Fin (2 ^ 16)} {s : Outlet}

theorem Framed.begin (framed : Framed blockSize s) {message : Message} (small : message.payload.length ≤ blockSize) :
    Framed blockSize (s.begin message) := by
  unfold Outlet.begin
  split
  case isTrue free =>
    have whole := framed.todo free.2
    rw [free.1, Option.getD_none, List.append_nil] at whole
    constructor
    case front =>
      rw [encode_append, whole]
      exact List.prefix_append _ _
    case todo =>
      intro _
      rw [encode_append, whole]
      rfl
    case small =>
      intro other member
      rcases List.mem_append.mp member with earlier | last
      · exact framed.small other earlier
      · rw [List.mem_singleton.mp last]
        exact small
  case isFalse => exact framed

/-- Each step keeps the frames whole. -/
theorem Framed.step (framed : Framed blockSize s) (event : Event) : Framed blockSize (s.step blockSize event) := by
  cases event with
  | chunk data =>
    rw [Outlet.step]
    split
    case isTrue fits => exact framed.begin fits.2
    case isFalse => exact framed
  | ping => exact framed.begin (Nat.zero_le _)
  | write n =>
    rw [Outlet.step]
    split
    case isTrue => exact framed
    case isFalse live =>
      have whole := framed.todo (Bool.eq_false_of_not_eq_true live)
      have parts : s.wire ++ (s.mtFwd.getD []).take (n + 1) ++ (s.mtFwd.getD []).drop (n + 1) = encode s.sent := by
        rw [List.append_assoc, List.take_append_drop, whole]
      constructor
      case front => exact ⟨_, parts⟩
      case todo =>
        intro _
        cases todo : s.mtFwd with
        | none => rw [todo] at parts; exact parts
        | some left => rw [todo] at parts; exact parts
      case small => exact framed.small
  | unlock =>
    rw [Outlet.step]
    split
    case isTrue ended =>
      constructor
      case front => exact framed.front
      case todo =>
        intro live
        have whole := framed.todo live
        rcases ended with empty | shut
        · rw [empty] at whole
          exact whole
        · rw [live] at shut
          cases shut
      case small => exact framed.small
    case isFalse => exact framed
  | shutdownSocket => exact ⟨framed.front, fun live => (by cases live), framed.small⟩

/-- In every interleaving. -/
theorem framed_after (blockSize : Fin (2 ^ 16)) (events : List Event) : Framed blockSize (Outlet.after blockSize events) := by
  apply Library.invariant_reached (Framed blockSize)
  · exact fun s event framed => framed.step event
  · exact ⟨List.prefix_refl _, fun _ => rfl, List.forall_mem_nil _⟩

/-- A turn of the forward side on its own is a run of the steps. -/
theorem processPipeForward_run {fragmentation outgoing : Fragmentation} {src src' : Receiver} {dst : Sender}
    {data : Bytes} (live : dst.shut = false) (filled : data ≠ []) (fits : data.length ≤ blockSize)
    (received : src.partialRead fragmentation blockSize = (some data, src')) :
    ∃ dst', processPipeForward fragmentation outgoing blockSize src dst = (.processed data.length, src', dst') ∧
      dst'.shut = false ∧
      (s.wire = dst.sent → s.mtFwd = none → s.shut = false → ∃ n,
        Library.reached (Outlet.step blockSize) s [.chunk data, .write n, .unlock] =
          { s with wire := dst'.sent, sent := s.sent ++ [.chunk data] }) := by
  obtain ⟨byte, rest, rfl⟩ := List.exists_cons_of_ne_nil filled
  have some : (blockSize : Nat) ≠ 0 := by
    rw [List.length_cons] at fits
    omega
  have size : (byte :: rest).length % 2 ^ 16 = (byte :: rest).length := Nat.mod_eq_of_lt (Nat.lt_of_le_of_lt fits blockSize.isLt)
  obtain ⟨dst₁, header, sent₁, live₁⟩ := Sender.writeU_sent outgoing live .u16 (byte :: rest).length
  obtain ⟨dst₂, block, sent₂, live₂⟩ := Sender.writeFull_sent outgoing live₁ (byte :: rest)
  refine ⟨dst₂, ?_, live₂, ?_⟩
  · rw [processPipeForward, if_neg some, received]
    dsimp only
    rw [size, header]
    dsimp only
    rw [block]
  · intro same free open_
    refine ⟨(Message.chunk (byte :: rest)).frame.length, ?_⟩
    have wire : dst₂.sent = s.wire ++ (Message.chunk (byte :: rest)).frame := by
      rw [sent₂, sent₁, same, List.append_assoc]
      rfl
    have all (frame : Bytes) : frame.take (frame.length + 1) = frame ∧ frame.drop (frame.length + 1) = [] :=
      ⟨List.take_of_length_le (Nat.le_succ _), List.drop_of_length_le (Nat.le_succ _)⟩
    simp only [Library.reached, Outlet.step, Outlet.begin, ne_eq, reduceCtorEq, not_false_eq_true, fits, and_self, if_true,
      free, open_, Bool.false_eq_true, if_false, Option.getD_some, Option.map_some, all, true_or, wire]

/-- So is a ping. -/
theorem sendPing_run {outgoing : Fragmentation} {dst : Sender} (live : dst.shut = false) :
    ∃ dst', sendPing outgoing dst = (true, dst') ∧ dst'.shut = false ∧
      (s.wire = dst.sent → s.mtFwd = none → s.shut = false →
        Library.reached (Outlet.step blockSize) s [.ping, .write 2, .unlock] =
          { s with wire := dst'.sent, sent := s.sent ++ [.ping] }) := by
  obtain ⟨dst', header, sent, live'⟩ := Sender.writeU_sent outgoing live .u16 0
  refine ⟨dst', header, live', ?_⟩
  intro same free open_
  have wire : dst'.sent = s.wire ++ Message.ping.frame := by
    rw [sent, same]
    rfl
  have all : Message.ping.frame.take 3 = Message.ping.frame ∧ Message.ping.frame.drop 3 = [] := ⟨rfl, rfl⟩
  simp only [Library.reached, Outlet.step, Outlet.begin, and_self, if_true, free, open_, Bool.false_eq_true, if_false,
    Option.getD_some, Option.map_some, all, true_or, wire]

end

/-! ## The thread that reads -/

/-- The payload of the frames that are complete in a stream. -/
def delivered (stream : Bytes) : Bytes :=
  if stream.length < 2 then []
  else
    if (stream.drop 2).length < hostOrder (stream.take 2) then []
    else
      (stream.drop 2).take (hostOrder (stream.take 2)) ++ delivered ((stream.drop 2).drop (hostOrder (stream.take 2)))
termination_by stream.length
decreasing_by
  rw [List.length_drop, List.length_drop]
  omega

/-- The most bytes that arrive of one chunk. -/
def longest (stream : Bytes) : Nat :=
  if stream.length < 2 then 0
  else
    max (min (hostOrder (stream.take 2)) (stream.drop 2).length)
      (longest ((stream.drop 2).drop (hostOrder (stream.take 2))))
termination_by stream.length
decreasing_by
  rw [List.length_drop, List.length_drop]
  omega

theorem Receiver.readLoop_short (fragmentation : Fragmentation) (expected turns : Nat) (r : Receiver)
    (live : r.shut = false) (data : Bytes) (enough : expected ≤ data.length + turns)
    (short : data.length + r.left.length < expected) :
    ∃ r', r.readLoop fragmentation expected turns data = (false, data ++ r.left, r') := by
  induction turns generalizing r data with
  | zero => omega
  | succ turns ih =>
    by_cases left : r.left = []
    · obtain ⟨less, -, moved⟩ := Receiver.partialRead_eq fragmentation live (min 4096 (expected - data.length)) (by omega)
      rw [Receiver.readLoop, if_pos (by omega), moved, left, List.append_nil]
      exact ⟨_, rfl⟩
    · obtain ⟨n, some, -, fits, turn⟩ :=
        Receiver.readLoop_more fragmentation expected turns live (by omega : data.length < expected) left
      rw [turn]
      obtain ⟨r', rest⟩ := ih { r with left := r.left.drop n, calls := r.calls + 1 } live (data ++ r.left.take n)
        (by rw [List.length_append, List.length_take]; omega)
        (by rw [List.length_append, List.length_take, List.length_drop]; omega)
      refine ⟨r', ?_⟩
      rw [rest, List.append_assoc, List.take_append_drop]

section
variable {fragmentation outgoing : Fragmentation} {blockSize : Fin (2 ^ 16)} {around : Around} {dst : Receiver} {src : Sender}
  (live : dst.shut = false)
include live

theorem turn_short (short : dst.left.length < 2) :
    ∃ dst', processPipeBackward fragmentation outgoing blockSize around dst src = (.readFailed, dst', src) := by
  have header := dst.readU_eq fragmentation live .u16
  have two : Width.u16.bytes = 2 := rfl
  rw [two, if_neg (Nat.not_le.mpr short)] at header
  rw [processPipeBackward]
  generalize dst.readU fragmentation .u16 = read at header
  obtain ⟨value, dst'⟩ := read
  dsimp only at header
  subst header
  exact ⟨dst', rfl⟩

variable (header : ¬dst.left.length < 2)
include header

variable (fragmentation) in
theorem turn_header : ∃ dst', dst.readU fragmentation .u16 = (some (hostOrder (dst.left.take 2)), dst') ∧
    dst'.left = dst.left.drop 2 ∧ dst'.shut = false := by
  have read := dst.readU_eq fragmentation live .u16
  have two : Width.u16.bytes = 2 := rfl
  rw [two, if_pos (Nat.not_lt.mp header)] at read
  exact read

theorem turn_ping (none : hostOrder (dst.left.take 2) = 0) :
    ∃ dst', dst'.left = dst.left.drop 2 ∧ dst'.shut = false ∧
      processPipeBackward fragmentation outgoing blockSize around dst src =
        (if around.terminated then .writeFailed else .ping, dst', src) := by
  obtain ⟨dst', read, left, live'⟩ := turn_header fragmentation live header
  refine ⟨dst', left, live', ?_⟩
  rw [processPipeBackward, read]
  exact if_pos none

theorem turn_cut (cut : (dst.left.drop 2).length < hostOrder (dst.left.take 2)) :
    ∃ dst', processPipeBackward fragmentation outgoing blockSize around dst src =
      (if blockSize < (dst.left.drop 2).length then .overrun else .readFailed, dst', src) := by
  obtain ⟨dst₁, read, left, live₁⟩ := turn_header fragmentation live header
  obtain ⟨dst₂, block⟩ := Receiver.readLoop_short fragmentation _ (hostOrder (dst.left.take 2)) dst₁ live₁ []
    (Nat.le_add_left _ _) (by rw [left, List.length_nil, Nat.zero_add]; exact cut)
  refine ⟨dst₂, ?_⟩
  rw [List.nil_append, left] at block
  rw [processPipeBackward, read]
  dsimp only
  rw [if_neg (by omega), Receiver.readFull, block]
  dsimp only
  split
  · rfl
  · rw [if_pos rfl]

variable (some : hostOrder (dst.left.take 2) ≠ 0)
  (whole : hostOrder (dst.left.take 2) ≤ (dst.left.drop 2).length)
include some whole

variable (fragmentation outgoing blockSize around src) in
/-- With the whole chunk there, all hangs on the block and on the write. -/
theorem turn_whole : ∃ dst', dst'.left = (dst.left.drop 2).drop (hostOrder (dst.left.take 2)) ∧ dst'.shut = false ∧
    processPipeBackward fragmentation outgoing blockSize around dst src =
      if blockSize < hostOrder (dst.left.take 2) then (.overrun, dst', src)
      else
        match src.writeFullOn outgoing around.breaks ((dst.left.drop 2).take (hostOrder (dst.left.take 2))) with
        | (false, src) => (.writeFailed, dst', src)
        | (true, src) => (.processed (hostOrder (dst.left.take 2)), dst', src) := by
  obtain ⟨dst₁, read, left, live₁⟩ := turn_header fragmentation live header
  have block := dst₁.readFull_eq fragmentation live₁ (hostOrder (dst.left.take 2))
  rw [left, if_pos whole] at block
  obtain ⟨calls, block⟩ := block
  refine ⟨{ dst₁ with left := (dst.left.drop 2).drop (hostOrder (dst.left.take 2)), calls := calls }, rfl, live₁, ?_⟩
  rw [processPipeBackward, read]
  dsimp only
  rw [if_neg some, block]
  dsimp only
  rw [List.length_take, Nat.min_eq_left whole, if_neg (by decide : ¬true = false)]

theorem turn_overrun (long : (blockSize : Nat) < hostOrder (dst.left.take 2)) :
    ∃ dst', processPipeBackward fragmentation outgoing blockSize around dst src = (.overrun, dst', src) := by
  obtain ⟨dst', -, -, turn⟩ := turn_whole fragmentation outgoing blockSize around src live header some whole
  rw [if_pos long] at turn
  exact ⟨dst', turn⟩

variable (sound : src.shut = false) (fits : hostOrder (dst.left.take 2) ≤ (blockSize : Nat))
include sound fits

theorem turn_chunk (good : around.breaks = none) :
    ∃ dst' src', dst'.left = (dst.left.drop 2).drop (hostOrder (dst.left.take 2)) ∧ dst'.shut = false ∧
      src'.sent = src.sent ++ (dst.left.drop 2).take (hostOrder (dst.left.take 2)) ∧ src'.shut = false ∧
      processPipeBackward fragmentation outgoing blockSize around dst src =
        (.processed (hostOrder (dst.left.take 2)), dst', src') := by
  obtain ⟨dst', left, live', turn⟩ := turn_whole fragmentation outgoing blockSize around src live header some whole
  obtain ⟨src', written, sent, sound'⟩ :=
    Sender.writeFull_sent outgoing sound ((dst.left.drop 2).take (hostOrder (dst.left.take 2)))
  rw [if_neg (Nat.not_lt.mpr fits), good, Sender.writeFullOn, written] at turn
  exact ⟨dst', src', left, live', sent, sound', turn⟩

theorem turn_broken {n : Nat} (broken : around.breaks = Option.some n) :
    ∃ dst' src' m, src'.sent = src.sent ++ ((dst.left.drop 2).take (hostOrder (dst.left.take 2))).take m ∧
      processPipeBackward fragmentation outgoing blockSize around dst src = (.writeFailed, dst', src') := by
  obtain ⟨dst', -, -, turn⟩ := turn_whole fragmentation outgoing blockSize around src live header some whole
  generalize (dst.left.drop 2).take (hostOrder (dst.left.take 2)) = data at turn
  obtain ⟨src', written, sent, -⟩ := Sender.writeFull_sent outgoing sound (data.take (n % data.length))
  rw [if_neg (Nat.not_lt.mpr fits), broken, Sender.writeFullOn, written] at turn
  exact ⟨dst', src'.shutdownSocket, _, sent, turn⟩

end

/-! ## A whole run -/

section
variable {fragmentation outgoing : Fragmentation} {blockSize : Fin (2 ^ 16)}

/-- Where the block is large enough for all that arrives, the payload is forwarded until a write fails or the stream is
at its end. -/
theorem processPeer_relays {around : Nat → Around} (turns turn : Nat) {dst : Receiver} {src : Sender} (recvBytes : Nat)
    (live : dst.shut = false) (sound : src.shut = false) (enough : dst.left.length < turns)
    (fits : longest dst.left ≤ blockSize) :
    ∃ ended src' count part, processPeer fragmentation outgoing blockSize around turns turn dst src recvBytes =
        (ended, src', count) ∧ src'.sent = src.sent ++ part ∧ part <+: delivered dst.left ∧
      (ended = .writeFailed ∨ ended = .readFailed ∧ part = delivered dst.left) := by
  induction turns generalizing turn dst src recvBytes with
  | zero => exact absurd enough (Nat.not_lt_zero _)
  | succ turns ih =>
    rw [processPeer]
    by_cases short : dst.left.length < 2
    · obtain ⟨dst', ends⟩ := @turn_short fragmentation outgoing blockSize (around turn) dst src live short
      rw [ends, delivered, if_pos short]
      exact ⟨_, _, _, [], rfl, (List.append_nil _).symm, List.nil_prefix, .inr ⟨rfl, rfl⟩⟩
    · rw [longest, if_neg short, Nat.max_le] at fits
      rw [delivered, if_neg short]
      by_cases none : hostOrder (dst.left.take 2) = 0
      · obtain ⟨dst', left, live', pings⟩ :=
          @turn_ping fragmentation outgoing blockSize (around turn) dst src live short none
        rw [pings]
        rw [none, List.take_zero, List.drop_zero, List.nil_append, if_neg (Nat.not_lt_zero _), ← left]
        rw [none, List.drop_zero, ← left] at fits
        by_cases terminated : (around turn).terminated = true
        · rw [if_pos terminated]
          exact ⟨_, _, _, [], rfl, (List.append_nil _).symm, List.nil_prefix, .inl rfl⟩
        · rw [if_neg terminated]
          apply ih _ _ live' sound _ fits.2
          rw [left, List.length_drop]
          omega
      · by_cases cut : (dst.left.drop 2).length < hostOrder (dst.left.take 2)
        · obtain ⟨dst', ends⟩ := @turn_cut fragmentation outgoing blockSize (around turn) dst src live short cut
          rw [if_neg (by omega)] at ends
          rw [ends, if_pos cut]
          exact ⟨_, _, _, [], rfl, (List.append_nil _).symm, List.nil_prefix, .inr ⟨rfl, rfl⟩⟩
        · have whole := Nat.not_lt.mp cut
          rw [Nat.min_eq_left whole] at fits
          rw [if_neg cut]
          cases breaks : (around turn).breaks with
          | none =>
            obtain ⟨dst', src', left, live', sent, sound', goes⟩ :=
              @turn_chunk fragmentation outgoing blockSize (around turn) dst src live short none whole sound fits.1 breaks
            rw [goes]
            obtain ⟨ended, src'', count, part, result, sent', front, ends⟩ :=
              @ih (turn + 1) dst' src' ((recvBytes + hostOrder (dst.left.take 2)) % 2 ^ 64) live' sound' (by
                rw [left, List.length_drop, List.length_drop]
                omega) (by rw [left]; exact fits.2)
            rw [left] at front ends
            refine ⟨ended, src'', count, _ ++ part, result, ?_, (List.prefix_append_right_inj _).mpr front, ?_⟩
            · rw [sent', sent, List.append_assoc]
            · exact ends.imp_right fun both => ⟨both.1, congrArg _ both.2⟩
          | some n =>
            obtain ⟨dst', src', m, sent, ends⟩ :=
              @turn_broken fragmentation outgoing blockSize (around turn) dst src live short none whole sound fits.1 n breaks
            rw [ends]
            refine ⟨_, src', recvBytes, _, rfl, sent, ?_, .inl rfl⟩
            exact (List.take_prefix _ _).trans (List.prefix_append _ _)

/-- Where more of a chunk arrives than the block has room for, it is written over its end if nothing comes between. -/
theorem processPeer_overruns (turns turn : Nat) {dst : Receiver} {src : Sender} (recvBytes : Nat)
    (live : dst.shut = false) (sound : src.shut = false) (enough : dst.left.length < turns)
    (long : blockSize < longest dst.left) :
    (processPeer fragmentation outgoing blockSize (fun _ => ⟨false, none⟩) turns turn dst src recvBytes).1 = .overrun := by
  induction turns generalizing turn dst src recvBytes with
  | zero => exact absurd enough (Nat.not_lt_zero _)
  | succ turns ih =>
    rw [processPeer]
    by_cases short : dst.left.length < 2
    · rw [longest, if_pos short] at long
      exact absurd long (Nat.not_lt_zero _)
    · rw [longest, if_neg short] at long
      by_cases none : hostOrder (dst.left.take 2) = 0
      · obtain ⟨dst', left, live', pings⟩ :=
          @turn_ping fragmentation outgoing blockSize ⟨false, Option.none⟩ dst src live short none
        rw [pings]
        rw [none, Nat.zero_min, Nat.zero_max, List.drop_zero, ← left] at long
        apply ih _ _ live' sound _ long
        rw [left, List.length_drop]
        omega
      · by_cases cut : (dst.left.drop 2).length < hostOrder (dst.left.take 2)
        · obtain ⟨dst', ends⟩ := @turn_cut fragmentation outgoing blockSize ⟨false, Option.none⟩ dst src live short cut
          have nothing : longest ((dst.left.drop 2).drop (hostOrder (dst.left.take 2))) = 0 := by
            rw [List.drop_of_length_le (Nat.le_of_lt cut), longest]
            rfl
          rw [if_pos (by omega)] at ends
          rw [ends]
        · have whole := Nat.not_lt.mp cut
          by_cases fits : hostOrder (dst.left.take 2) ≤ (blockSize : Nat)
          · obtain ⟨dst', src', left, live', -, sound', goes⟩ :=
              @turn_chunk fragmentation outgoing blockSize ⟨false, Option.none⟩ dst src live short none whole sound fits rfl
            rw [goes]
            apply ih _ _ live' sound'
            · rw [left, List.length_drop, List.length_drop]
              omega
            · rw [left]
              omega
          · obtain ⟨dst', ends⟩ := @turn_overrun fragmentation outgoing blockSize ⟨false, Option.none⟩ dst src live short
              none whole (Nat.not_le.mp fits)
            rw [ends]

end

/-! ## What conforming threads have written -/

theorem prefix_append_split {α : Type} {first second front : List α} (inside : first.length ≤ front.length)
    (isFront : front <+: first ++ second) : ∃ rest, front = first ++ rest ∧ rest <+: second := by
  obtain ⟨later, same⟩ := isFront
  rcases List.append_eq_append_iff.mp same with ⟨more, whole, -⟩ | ⟨rest, whole, parts⟩
  · have length := congrArg List.length whole
    rw [List.length_append] at length
    have none := List.eq_nil_of_length_eq_zero (l := more) (by omega)
    subst none
    rw [List.append_nil] at whole
    exact ⟨[], by rw [whole, List.append_nil], List.nil_prefix⟩
  · exact ⟨rest, whole, later, parts.symm⟩

section
variable {messages : List Message}

theorem encode_cons (message : Message) : encode (message :: messages) =
    networkOrder Width.u16.bytes message.payload.length ++ (message.payload ++ encode messages) := by
  simp [encode, Message.frame]

/-- The front of what was written: its first frame, complete or cut. -/
theorem split_frame {message : Message} (small : message.payload.length < 2 ^ 16) {stream : Bytes}
    (header : ¬stream.length < 2) (front : stream <+: encode (message :: messages)) :
    hostOrder (stream.take 2) = message.payload.length ∧ stream.drop 2 <+: message.payload ++ encode messages := by
  have two : (networkOrder Width.u16.bytes message.payload.length).length = 2 := length_networkOrder _ _
  rw [encode_cons] at front
  obtain ⟨rest, rfl, front'⟩ := prefix_append_split (by omega) front
  rw [List.take_left' two, List.drop_left' two]
  exact ⟨hostOrder_networkOrder small, front'⟩

/-- Of any front of it, the complete chunks. -/
theorem delivered_front (small : ∀ message ∈ messages, message.payload.length < 2 ^ 16) {stream : Bytes}
    (front : stream <+: encode messages) :
    delivered stream <+: payloads messages ∧ (stream = encode messages → delivered stream = payloads messages) := by
  induction messages generalizing stream with
  | nil =>
    have empty := List.prefix_nil.mp front
    subst empty
    rw [delivered]
    exact ⟨List.prefix_refl _, fun _ => rfl⟩
  | cons message messages ih =>
    obtain ⟨first, others⟩ := List.forall_mem_cons.mp small
    have parts : payloads (message :: messages) = message.payload ++ payloads messages := rfl
    have two : (networkOrder Width.u16.bytes message.payload.length).length = 2 := length_networkOrder _ _
    rw [parts, delivered]
    by_cases short : stream.length < 2
    · rw [if_pos short]
      refine ⟨List.nil_prefix, fun whole => ?_⟩
      rw [whole, encode_cons, List.length_append] at short
      omega
    · obtain ⟨size, behind⟩ := split_frame first short front
      rw [if_neg short, size]
      by_cases cut : (stream.drop 2).length < message.payload.length
      · rw [if_pos cut]
        refine ⟨List.nil_prefix, fun whole => ?_⟩
        rw [whole, encode_cons, List.drop_left' two, List.length_append] at cut
        omega
      · rw [if_neg cut]
        obtain ⟨rest, same, front'⟩ := prefix_append_split (Nat.not_lt.mp cut) behind
        rw [same, List.take_left' rfl, List.drop_left' rfl]
        obtain ⟨begins, all⟩ := ih others front'
        refine ⟨(List.prefix_append_right_inj _).mpr begins, fun whole => ?_⟩
        rw [whole, encode_cons, List.drop_left' two] at same
        rw [all (List.append_cancel_left same).symm]

end

/-! ## The transport -/

/-- A bridge with such a block on such a stream of its peer, in any surroundings: it ends with an error and not with a
block written over its end; and of what the two threads of a bridge have written, in any order, it forwards the front of
the payload, and all if it reads to the end of all messages. -/
structure RelaysExactly (blockSize : Fin (2 ^ 16)) (stream : Bytes) : Prop where
  inside : ∀ (fragmentation outgoing : Fragmentation) (around : Nat → Around),
    (relay fragmentation outgoing blockSize around stream).1 = .readFailed ∨
      (relay fragmentation outgoing blockSize around stream).1 = .writeFailed
  inOrder : ∀ (fragmentation outgoing : Fragmentation) (around : Nat → Around) (peerBlock : Fin (2 ^ 16))
    (events : List Event), stream <+: (Outlet.after peerBlock events).wire →
    (relay fragmentation outgoing blockSize around stream).2.1.sent <+: payloads (Outlet.after peerBlock events).sent
  exact : ∀ (fragmentation outgoing : Fragmentation) (around : Nat → Around) (peerBlock : Fin (2 ^ 16))
    (events : List Event), stream = (Outlet.after peerBlock events).wire →
    (Outlet.after peerBlock events).mtFwd = none → (Outlet.after peerBlock events).shut = false →
    (relay fragmentation outgoing blockSize around stream).1 = .readFailed →
    (relay fragmentation outgoing blockSize around stream).2.1.sent = payloads (Outlet.after peerBlock events).sent

/-- A bridge with blocks of one byte, and a chunk of two. -/
theorem not_relayed_exactly : ¬RelaysExactly ⟨1, by decide⟩ [0, 2, 7, 8] := by
  intro relays
  have ended := relays.inside (fun _ => 0) (fun _ => 0) (fun _ => ⟨false, none⟩)
  have overrun : (relay (fun _ => 0) (fun _ => 0) ⟨1, by decide⟩ (fun _ => ⟨false, none⟩) [0, 2, 7, 8]).1 = .overrun := by
    decide
  rw [overrun] at ended
  rcases ended with other | other <;> cases other

/-- The transport is safe and exact on the streams of which no more bytes of a chunk arrive than the block has. -/
theorem relayed_exactly_iff (blockSize : Fin (2 ^ 16)) (stream : Bytes) :
    RelaysExactly blockSize stream ↔ longest stream ≤ blockSize := by
  constructor
  case mp =>
    intro relays
    by_contra long
    have overrun := @processPeer_overruns (fun _ => 0) (fun _ => 0) blockSize (stream.length + 1) 0 { left := stream } {} 0
      rfl rfl (Nat.lt_succ_self _) (Nat.not_le.mp long)
    rcases relays.inside (fun _ => 0) (fun _ => 0) (fun _ => ⟨false, none⟩) with other | other
    · cases other.symm.trans overrun
    · cases other.symm.trans overrun
  case mpr =>
    intro fits
    have relays (fragmentation outgoing : Fragmentation) (around : Nat → Around) :=
      @processPeer_relays fragmentation outgoing blockSize around (stream.length + 1) 0 { left := stream } {} 0 rfl rfl
        (Nat.lt_succ_self _) fits
    have small (peerBlock : Fin (2 ^ 16)) (events : List Event) :
        ∀ message ∈ (Outlet.after peerBlock events).sent, message.payload.length < 2 ^ 16 := by
      intro message member
      exact Nat.lt_of_le_of_lt ((framed_after peerBlock events).small message member) peerBlock.isLt
    constructor
    case inside =>
      intro fragmentation outgoing around
      obtain ⟨ended, src', count, part, result, -, -, ends⟩ := relays fragmentation outgoing around
      rw [relay, result]
      exact ends.elim .inr fun both => .inl both.1
    case inOrder =>
      intro fragmentation outgoing around peerBlock events front
      obtain ⟨ended, src', count, part, result, sent, begins, -⟩ := relays fragmentation outgoing around
      have framed := framed_after peerBlock events
      rw [relay, result]
      dsimp only
      rw [sent]
      exact begins.trans (delivered_front (small peerBlock events) (front.trans framed.front)).1
    case exact =>
      intro fragmentation outgoing around peerBlock events whole free live read
      obtain ⟨ended, src', count, part, result, sent, -, ends⟩ := relays fragmentation outgoing around
      have framed := framed_after peerBlock events
      have all := framed.todo live
      rw [free, Option.getD_none, List.append_nil, ← whole] at all
      rw [relay, result] at read ⊢
      dsimp only at read ⊢
      rcases ends with failed | ⟨-, same⟩
      · cases failed.symm.trans read
      · rw [sent, same]
        exact (delivered_front (small peerBlock events) (all ▸ List.prefix_refl _)).2 all

end Mantids.Network.Bridge
