import Mathlib
import Mantids.Network.StreamBase

/-! A sequence of typed writes comes back from the same sequence of typed reads, however the
system cuts it, if no block is read into no room, no string is longer than its prefix can
say, and no block is as long as a wide prefix can say. -/

set_option autoImplicit false

namespace Mantids.Network

open Memory

/-! ## Integers -/

theorem length_networkOrder (bytes value : Nat) : (networkOrder bytes value).length = bytes := by
  induction bytes with
  | zero => rfl
  | succ bytes ih => rw [networkOrder, List.length_cons, ih]

theorem foldl_networkOrder (bytes value start : Nat) :
    (networkOrder bytes value).foldl (fun value byte => value * 256 + byte.toNat) start =
      start * 256 ^ bytes + value % 256 ^ bytes := by
  induction bytes generalizing start with
  | zero => simp [networkOrder, Nat.mod_one]
  | succ bytes ih =>
    have split : value % (256 ^ bytes * 256) = value % 256 ^ bytes + 256 ^ bytes * (value / 256 ^ bytes % 256) :=
      Nat.mod_mul
    have byte : (UInt8.ofNat (value / 256 ^ bytes)).toNat = value / 256 ^ bytes % 256 := UInt8.toNat_ofNat'
    rw [networkOrder, List.foldl_cons, ih, byte, Nat.pow_succ, split]
    ring

theorem hostOrder_networkOrder {T : Width} {value : Nat} (word : value < T.values) :
    hostOrder (networkOrder T.bytes value) = value := by
  have values : T.values = 256 ^ T.bytes := by
    cases T <;> rfl
  rw [hostOrder, foldl_networkOrder, Nat.zero_mul, Nat.zero_add, Nat.mod_eq_of_lt (values ▸ word)]

/-! ## Loops -/

section
variable (fragmentation : Fragmentation)

/-- A call moves some of the bytes. -/
theorem Sender.partialWrite_eq {s : Sender} (live : s.shut = false) (data : Bytes) (some : data ≠ []) :
    ∃ less, less < data.length ∧ s.partialWrite fragmentation data =
      (Option.some (less + 1), { s with sent := s.sent ++ data.take (less + 1), calls := s.calls + 1 }) := by
  refine ⟨fragmentation s.calls % data.length, Nat.mod_lt _ (List.length_pos_iff.mpr some), ?_⟩
  simp [partialWrite, live, Fragmentation.moved]

theorem Receiver.partialRead_eq {r : Receiver} (live : r.shut = false) (len : Nat) (some : 0 < len) :
    ∃ less, less < len ∧ r.partialRead fragmentation len =
      (Option.some (r.left.take (less + 1)), { r with left := r.left.drop (less + 1), calls := r.calls + 1 }) := by
  refine ⟨fragmentation r.calls % len, Nat.mod_lt _ some, ?_⟩
  simp only [partialRead, live, Fragmentation.moved, Bool.false_eq_true, if_false, List.length_take]
  rw [← List.drop_eq_drop_min]

/-- All is sent. -/
theorem Sender.writeLoop_eq (turns : Nat) (s : Sender) (live : s.shut = false) (data : Bytes)
    (enough : data.length ≤ turns) :
    ∃ calls, s.writeLoop fragmentation turns data = (true, { s with sent := s.sent ++ data, calls := calls }) := by
  induction turns generalizing s data with
  | zero =>
    rw [List.length_eq_zero_iff.mp (Nat.le_zero.mp enough)]
    exact ⟨s.calls, by simp [writeLoop]⟩
  | succ turns ih =>
    cases data with
    | nil => exact ⟨s.calls, by simp [writeLoop]⟩
    | cons byte rest =>
      obtain ⟨less, part, moved⟩ := partialWrite_eq fragmentation live ((byte :: rest).take 4096) (by simp)
      rw [writeLoop, moved]
      generalize shown : byte :: rest = data at enough part
      rw [List.length_take] at part
      obtain ⟨calls, later⟩ := ih { s with sent := s.sent ++ data.take (less + 1), calls := s.calls + 1 } live
        (data.drop (less + 1)) (by rw [List.length_drop]; omega)
      refine ⟨calls, ?_⟩
      rw [List.take_take, Nat.min_eq_left (by omega)]
      change writeLoop fragmentation turns _ _ = _
      rw [later, List.append_assoc, List.take_append_drop]

theorem Sender.writeFull_eq (s : Sender) (live : s.shut = false) (data : Bytes) :
    ∃ calls, s.writeFull fragmentation data = (true, { s with sent := s.sent ++ data, calls := calls }) :=
  s.writeLoop_eq fragmentation data.length live data (Nat.le_refl _)

/-- A turn takes some of what is left. -/
theorem Receiver.readLoop_more (expected turns : Nat) {r : Receiver} (live : r.shut = false) {data : Bytes}
    (more : data.length < expected) (left : r.left ≠ []) :
    ∃ n, 0 < n ∧ n ≤ expected - data.length ∧ n ≤ r.left.length ∧
      r.readLoop fragmentation expected (turns + 1) data =
        readLoop fragmentation expected turns { r with left := r.left.drop n, calls := r.calls + 1 }
          (data ++ r.left.take n) := by
  have some := List.length_pos_iff.mpr left
  obtain ⟨less, part, moved⟩ := partialRead_eq fragmentation live (min 4096 (expected - data.length)) (by omega)
  refine ⟨min (less + 1) r.left.length, by omega, by omega, by omega, ?_⟩
  rw [readLoop, if_pos more, moved, ← List.drop_eq_drop_min, ← List.take_eq_take_min]
  cases taken : r.left.take (less + 1) with
  | nil =>
    have none := congrArg List.length taken
    rw [List.length_take, List.length_nil] at none
    omega
  | cons byte rest => rfl

/-- What is expected is read if there is as much. -/
theorem Receiver.readLoop_eq (expected turns : Nat) (r : Receiver) (live : r.shut = false) (data : Bytes)
    (enough : expected ≤ data.length + turns) (fits : data.length ≤ expected) :
    if expected ≤ data.length + r.left.length then
        ∃ calls, r.readLoop fragmentation expected turns data =
          (true, data ++ r.left.take (expected - data.length),
            { r with left := r.left.drop (expected - data.length), calls := calls })
      else (r.readLoop fragmentation expected turns data).1 = false := by
  induction turns generalizing r data with
  | zero =>
    have all : expected = data.length := by omega
    rw [if_pos (by omega)]
    exact ⟨r.calls, by simp [readLoop, all]⟩
  | succ turns ih =>
    by_cases more : data.length < expected
    · by_cases left : r.left = []
      · obtain ⟨less, part, moved⟩ := partialRead_eq fragmentation live
          (min 4096 (expected - data.length)) (by omega)
        rw [if_neg (by simp [left, more]), readLoop, if_pos more, moved, left]
        rfl
      · obtain ⟨n, some, inside, fits', turn⟩ := readLoop_more fragmentation expected turns live more left
        have later := ih { r with left := r.left.drop n, calls := r.calls + 1 } live (data ++ r.left.take n)
          (by rw [List.length_append, List.length_take]; omega) (by rw [List.length_append, List.length_take]; omega)
        rw [List.length_append, List.length_take, List.length_drop, Nat.min_eq_left fits'] at later
        rw [turn]
        split
        · rw [if_pos (by omega)] at later
          obtain ⟨calls, later⟩ := later
          refine ⟨calls, ?_⟩
          have whole : n + (expected - (data.length + n)) = expected - data.length := by omega
          rw [later, List.append_assoc, ← List.take_add, List.drop_drop, whole]
        · rwa [if_neg (by omega)] at later
    · have all : expected = data.length := by omega
      rw [if_pos (by omega), readLoop, if_neg more]
      exact ⟨r.calls, by simp [all]⟩

theorem Receiver.readFull_eq (r : Receiver) (live : r.shut = false) (expected : Nat) :
    if expected ≤ r.left.length then
        ∃ calls, r.readFull fragmentation expected =
          (true, r.left.take expected, { r with left := r.left.drop expected, calls := calls })
      else (r.readFull fragmentation expected).1 = false := by
  simpa [readFull] using r.readLoop_eq fragmentation expected expected live [] (by simp) (by simp)

/-! ## Typed values -/

theorem Sender.writeFull_sent {s : Sender} (live : s.shut = false) (data : Bytes) :
    ∃ s', s.writeFull fragmentation data = (true, s') ∧ s'.sent = s.sent ++ data ∧ s'.shut = false := by
  obtain ⟨calls, all⟩ := s.writeFull_eq fragmentation live data
  exact ⟨_, all, rfl, live⟩

theorem Sender.writeU_sent {s : Sender} (live : s.shut = false) (T : Width) (c : Nat) :
    ∃ s', s.writeU fragmentation T c = (true, s') ∧ s'.sent = s.sent ++ networkOrder T.bytes c ∧ s'.shut = false := by
  obtain ⟨s', all, sent, live'⟩ := writeFull_sent fragmentation live (networkOrder T.bytes c)
  exact ⟨s', by rw [writeU, all]; rfl, sent, live'⟩

theorem Sender.writeBlockEx_sent {s : Sender} (live : s.shut = false) (T : Width) (data : Bytes) (datalen : Nat) :
    ∃ s', s.writeBlockEx fragmentation T data datalen = (true, s') ∧
      s'.sent = s.sent ++ networkOrder T.bytes datalen ++ data.take datalen ∧ s'.shut = false := by
  obtain ⟨s', header, sent, live'⟩ := writeFull_sent fragmentation live (networkOrder T.bytes datalen)
  rw [writeBlockEx, header]
  dsimp only
  split
  · rename_i none
    exact ⟨s', rfl, by rw [sent, none, List.take_zero, List.append_nil], live'⟩
  · obtain ⟨s'', payload, sent', live''⟩ := writeFull_sent fragmentation live' (data.take datalen)
    exact ⟨s'', by rw [payload]; rfl, by rw [sent', sent], live''⟩

/-- Nothing is written any more. -/
theorem Sender.writeFull_shut {s : Sender} (shut : s.shut = true) {data : Bytes} (some : data ≠ []) :
    s.writeFull fragmentation data = (false, s) := by
  cases data with
  | nil => contradiction
  | cons byte rest =>
    have same : s.shutdownSocket = s := by
      cases s
      cases shut
      rfl
    rw [writeFull, List.length_cons, writeLoop, partialWrite, if_pos shut]
    dsimp only
    rw [same]

/-- `writeFull` to a connection that may break behind some of the bytes. -/
def Sender.writeFullOn (breaks : Option Nat) (s : Sender) (data : Bytes) : Bool × Sender :=
  match breaks with
  | none => s.writeFull fragmentation data
  | some n => (false, (s.writeFull fragmentation (data.take (n % data.length))).2.shutdownSocket)

/-- A front of the data is sent, and all of it where the write succeeds. -/
theorem Sender.writeFullOn_sent (breaks : Option Nat) {s : Sender} (live : s.shut = false) (data : Bytes) :
    ∃ ok s' front, s.writeFullOn fragmentation breaks data = (ok, s') ∧ s'.sent = s.sent ++ front ∧ front <+: data ∧
      (ok = true → front = data ∧ s'.shut = false) := by
  cases breaks with
  | none =>
    obtain ⟨s', all, sent, live'⟩ := writeFull_sent fragmentation live data
    exact ⟨true, s', data, all, sent, List.prefix_refl _, fun _ => ⟨rfl, live'⟩⟩
  | some n =>
    obtain ⟨s', written, sent, -⟩ := writeFull_sent fragmentation live (data.take (n % data.length))
    refine ⟨false, s'.shutdownSocket, _, ?_, sent, List.take_prefix _ _, fun ok => by cases ok⟩
    rw [writeFullOn, written]

theorem Receiver.readU_eq {r : Receiver} (live : r.shut = false) (T : Width) :
    if T.bytes ≤ r.left.length then
      ∃ r', r.readU fragmentation T = (some (hostOrder (r.left.take T.bytes)), r') ∧
        r'.left = r.left.drop T.bytes ∧ r'.shut = false
    else (r.readU fragmentation T).1 = none := by
  have full := r.readFull_eq fragmentation live T.bytes
  unfold readU
  split at full
  · rename_i enough
    obtain ⟨calls, all⟩ := full
    rw [if_pos enough, all]
    exact ⟨_, rfl, rfl, live⟩
  · rename_i few
    rw [if_neg few]
    generalize r.readFull fragmentation T.bytes = answer at full
    obtain ⟨ok, data, r'⟩ := answer
    cases full
    rfl

/-- So many bytes have been read, and reading can go on. -/
structure Receiver.Reads (r : Receiver) (n : Nat) (r' : Receiver) : Prop where
  enough : n ≤ r.left.length
  left : r'.left = r.left.drop n
  live : r'.shut = false

theorem Receiver.Reads.trans {r r' r'' : Receiver} {n m : Nat} (first : r.Reads n r') (then_ : r'.Reads m r'') :
    r.Reads (n + m) r'' where
  enough := by
    have more := then_.enough
    rw [first.left, List.length_drop] at more
    have enough := first.enough
    omega
  left := by rw [then_.left, first.left, List.drop_drop]
  live := then_.live

theorem Receiver.readU_some {r r' : Receiver} (live : r.shut = false) {T : Width} {value : Nat}
    (read : r.readU fragmentation T = (some value, r')) :
    r.Reads T.bytes r' ∧ value = hostOrder (r.left.take T.bytes) := by
  have all := r.readU_eq fragmentation live T
  split at all
  · rename_i enough
    obtain ⟨r'', same, left, live'⟩ := all
    rw [read] at same
    cases same
    exact ⟨⟨enough, left, live'⟩, rfl⟩
  · rw [read] at all
    cases all

theorem Receiver.readFull_true {r r' : Receiver} (live : r.shut = false) {expected : Nat} {data : Bytes}
    (read : r.readFull fragmentation expected = (true, data, r')) :
    r.Reads expected r' ∧ data = r.left.take expected := by
  have all := r.readFull_eq fragmentation live expected
  split at all
  · rename_i enough
    obtain ⟨calls, all⟩ := all
    rw [read] at all
    cases all
    exact ⟨⟨enough, rfl, live⟩, rfl⟩
  · rw [read] at all
    cases all

theorem Receiver.readU_value {r : Receiver} (live : r.shut = false) {T : Width} {value : Nat} (word : value < T.values)
    {later : Bytes} (left : r.left = networkOrder T.bytes value ++ later) :
    ∃ r', r.readU fragmentation T = (some value, r') ∧ r'.left = later ∧ r'.shut = false := by
  have all := r.readU_eq fragmentation live T
  have header := length_networkOrder T.bytes value
  rw [left, if_pos (by simp [header]), List.take_left' header, List.drop_left' header,
    hostOrder_networkOrder word] at all
  exact all

section
variable {r : Receiver} (live : r.shut = false) {T : Width} {data later : Bytes}
  (word : data.length < T.values) (left : r.left = networkOrder T.bytes data.length ++ (data ++ later))
include live word left

theorem Receiver.readBlockEx_block {datalen : Nat} {must : Bool} (room : datalen ≠ 0) (fits : data.length ≤ datalen)
    (exact_ : must = true → data.length = datalen) :
    ∃ r', r.readBlockEx fragmentation T datalen must = (some data, r') ∧ r'.left = later ∧ r'.shut = false := by
  obtain ⟨r', header, left', live'⟩ := readU_value fragmentation live word left
  rw [readBlockEx, if_neg room, header]
  dsimp only
  rw [if_neg (by rintro (⟨other, full⟩ | long); exacts [other (exact_ full), by omega])]
  split
  · rename_i none
    have empty := List.length_eq_zero_iff.mp none
    exact ⟨r', by rw [empty], by rw [left', empty, List.nil_append], live'⟩
  · have full := r'.readFull_eq fragmentation live' data.length
    rw [left', if_pos (by simp), List.take_left' rfl, List.drop_left' rfl] at full
    obtain ⟨calls, full⟩ := full
    rw [full]
    exact ⟨_, rfl, rfl, live'⟩

theorem Receiver.readBlockWAllocEx_block (datalen : Option Nat) (fits : data.length ≤ datalen.getD (T.max - 1))
    (memory : data.length ≤ T.sizePlusOne data.length) :
    ∃ r', r.readBlockWAllocEx fragmentation T datalen = (.block data, r') ∧ r'.left = later ∧ r'.shut = false := by
  obtain ⟨r', header, left', live'⟩ := readU_value fragmentation live word left
  rw [readBlockWAllocEx, header]
  dsimp only
  rw [if_neg (Nat.not_lt.mpr fits), if_neg (Nat.not_lt.mpr memory)]
  split
  · rename_i none
    have empty := List.length_eq_zero_iff.mp none
    exact ⟨r', by rw [empty], by rw [left', empty, List.nil_append], live'⟩
  · have full := r'.readFull_eq fragmentation live' data.length
    rw [left', if_pos (by simp), List.take_left' rfl, List.drop_left' rfl] at full
    obtain ⟨calls, full⟩ := full
    rw [full]
    exact ⟨_, rfl, rfl, live'⟩

end

theorem Receiver.readBlockEx_some {r r' : Receiver} (live : r.shut = false) {T : Width} {datalen : Nat} {must : Bool}
    {data : Bytes} (room : datalen ≠ 0) (read : r.readBlockEx fragmentation T datalen must = (some data, r')) :
    r.Reads (T.bytes + data.length) r' := by
  rw [readBlockEx, if_neg room] at read
  split at read
  · cases read
  · rename_i len r₁ header
    obtain ⟨first, -⟩ := readU_some fragmentation live header
    split_ifs at read with wrong none
    · cases read
    · cases read
      exact first
    · split at read
      · rename_i data' r₂ payload
        cases read
        obtain ⟨second, taken⟩ := readFull_true fragmentation first.live payload
        have length : data.length = len := by
          rw [taken, List.length_take, Nat.min_eq_left second.enough]
        rw [length]
        exact first.trans second
      · cases read

theorem Receiver.readBlockWAllocEx_some {r r' : Receiver} (live : r.shut = false) {T : Width} {datalen : Option Nat}
    {data : Bytes} (read : r.readBlockWAllocEx fragmentation T datalen = (.block data, r')) :
    r.Reads (T.bytes + data.length) r' ∧ data.length ≤ T.sizePlusOne data.length := by
  rw [readBlockWAllocEx] at read
  split at read
  · cases read
  · rename_i len r₁ header
    obtain ⟨first, -⟩ := readU_some fragmentation live header
    split_ifs at read with long none memory
    · cases read
    · cases read
      exact ⟨first, Nat.zero_le _⟩
    · cases read
    · split at read
      · rename_i data' r₂ payload
        cases read
        obtain ⟨second, taken⟩ := readFull_true fragmentation first.live payload
        have length : data.length = len := by
          rw [taken, List.length_take, Nat.min_eq_left second.enough]
        rw [length]
        exact ⟨first.trans second, Nat.not_lt.mp memory⟩
      · cases read

end

/-! ## Sequences -/

inductive Value where
  | number (value : Nat)
  | bytes (value : Bytes)
  deriving DecidableEq

/-- A typed write with its read. The number of a block's bytes is of its width, the size of
a string is not. -/
inductive Item where
  | u (T : Width) (c : Fin T.values)
  | blockEx (T : Width) (data : { data : Bytes // data.length < T.values }) (datalen : Fin T.values)
    (mustReceiveFullDataLen : Bool)
  | blockWAllocEx (T : Width) (data : { data : Bytes // data.length < T.values }) (datalen : Option (Fin T.values))
  | stringEx (T : Width) (str : Bytes) (maxSize : Fin (2 ^ 64)) (maxLenght : Fin T.values)

namespace Item

def value : Item → Value
  | u _ c => .number c
  | blockEx _ data _ _ | blockWAllocEx _ data _ => .bytes data
  | stringEx _ str _ _ => .bytes str

def bytes : Item → Bytes
  | u T c => networkOrder T.bytes c
  | blockEx T data _ _ | blockWAllocEx T data _ => networkOrder T.bytes data.val.length ++ data
  | stringEx T str _ _ => networkOrder T.bytes str.length ++ str

def write (fragmentation : Fragmentation) (s : Sender) : Item → Bool × Sender
  | u T c => s.writeU fragmentation T c
  | blockEx T data _ _ | blockWAllocEx T data _ => s.writeBlockEx fragmentation T data data.val.length
  | stringEx T str maxSize _ => s.writeStringEx fragmentation T str maxSize

/-- A block that overflows its memory is not a value. -/
def allocated : Receiver.Allocated × Receiver → Option Value × Receiver
  | (.block data, r) => (some (.bytes data), r)
  | (.failed, r) | (.overflows, r) => (none, r)

def read (fragmentation : Fragmentation) (r : Receiver) : Item → Option Value × Receiver
  | u T _ => (r.readU fragmentation T).map (·.map .number) id
  | blockEx T _ datalen must => (r.readBlockEx fragmentation T datalen must).map (·.map .bytes) id
  | blockWAllocEx T _ datalen => allocated (r.readBlockWAllocEx fragmentation T (datalen.map (·.val)))
  | stringEx T _ _ maxLenght => allocated (r.readStringEx fragmentation T maxLenght)

/-- It is to be written: its writer's maximum and its prefix allow it. -/
def Accepted : Item → Prop
  | stringEx T str maxSize _ => str.length ≤ maxSize ∧ str.length < T.values
  | _ => True

instance : DecidablePred Accepted := fun item => by
  cases item <;> simp only [Accepted] <;> infer_instance

/-- The capacity is sufficient. -/
def Sufficient : Item → Prop
  | u _ _ => True
  | blockEx _ data datalen must => data.val.length ≤ datalen ∧ (must = true → data.val.length = datalen)
  | blockWAllocEx T data datalen => data.val.length ≤ (datalen.map (·.val)).getD (T.max - 1)
  | stringEx _ str _ maxLenght => str.length ≤ maxLenght

/-- There is room for a byte, and the memory for the block is not the sum that is cut to its width. -/
def Readable : Item → Prop
  | u _ _ => True
  | blockEx _ _ datalen _ => datalen.val ≠ 0
  | blockWAllocEx T data _ => data.val.length ≤ T.sizePlusOne data.val.length
  | stringEx T str _ _ => str.length ≤ T.sizePlusOne str.length

instance : DecidablePred Sufficient := fun item => by
  cases item <;> simp only [Sufficient] <;> infer_instance

instance : DecidablePred Readable := fun item => by
  cases item <;> simp only [Readable] <;> infer_instance

/-- The writer's maximum refuses it. -/
def Refused : Item → Prop
  | stringEx _ str maxSize _ => maxSize < str.length
  | _ => False

instance : DecidablePred Refused := fun item => by
  cases item <;> simp only [Refused] <;> infer_instance

end Item

section
variable (fragmentation : Fragmentation)

def writeAll : List Item → Sender → List Bool × Sender
  | [], s => ([], s)
  | item :: rest, s =>
    let (answer, s) := item.write fragmentation s
    let (answers, s) := writeAll rest s
    (answer :: answers, s)

def readAll : List Item → Receiver → List (Option Value) × Receiver
  | [], r => ([], r)
  | item :: rest, r =>
    let (value, r) := item.read fragmentation r
    let (values, r) := readAll rest r
    (value :: values, r)

end

/-- What comes before the first item that is not to be written. -/
def delivered (items : List Item) : List Item := items.takeWhile (·.Accepted)

def undelivered (items : List Item) : List Item := items.dropWhile (·.Accepted)

/-- The writes succeed up to the first item that is to be refused, and the same reads give the same
values and leave what comes later. -/
def RoundTrips (items : List Item) : Prop :=
  ∀ (outgoing incoming : Fragmentation) (later : Bytes),
    let written := writeAll outgoing items {}
    let read := readAll incoming (delivered items) { left := written.2.sent ++ later }
    written.1 = (delivered items).map (fun _ => true) ++ (undelivered items).map (fun _ => false) ∧
      read.1 = (delivered items).map (fun item => some item.value) ∧ read.2.left = later

/-- The first item that is to be refused is, and those before it can be read. -/
structure Sound (items : List Item) : Prop where
  refused : ∀ item ∈ (undelivered items).head?, item.Refused
  readable : ∀ item ∈ delivered items, item.Readable

/-! ## Writing -/

section
variable (fragmentation : Fragmentation)

theorem Item.write_accepted {s : Sender} (live : s.shut = false) {item : Item} (accepted : item.Accepted) :
    ∃ s', item.write fragmentation s = (true, s') ∧ s'.sent = s.sent ++ item.bytes ∧ s'.shut = false := by
  cases item with
  | u T c => exact s.writeU_sent fragmentation live T c
  | blockEx T data datalen must =>
    obtain ⟨s', all, sent, live'⟩ := s.writeBlockEx_sent fragmentation live T data data.val.length
    exact ⟨s', all, by rw [sent, List.take_length, List.append_assoc]; rfl, live'⟩
  | blockWAllocEx T data datalen =>
    obtain ⟨s', all, sent, live'⟩ := s.writeBlockEx_sent fragmentation live T data data.val.length
    exact ⟨s', all, by rw [sent, List.take_length, List.append_assoc]; rfl, live'⟩
  | stringEx T str maxSize maxLenght =>
    obtain ⟨s', all, sent, live'⟩ := s.writeBlockEx_sent fragmentation live T str (str.length % T.values)
    refine ⟨s', ?_, ?_, live'⟩
    · rw [write, Sender.writeStringEx, if_neg (Nat.not_lt.mpr accepted.1), all]
    · rw [sent, Nat.mod_eq_of_lt accepted.2, List.take_length, List.append_assoc]
      rfl

/-- A string that is let through although its prefix cannot say its length. -/
theorem Item.write_let_through {s : Sender} (live : s.shut = false) {item : Item} (unaccepted : ¬item.Accepted)
    (unrefused : ¬item.Refused) : (item.write fragmentation s).1 = true := by
  cases item with
  | stringEx T str maxSize maxLenght =>
    obtain ⟨s', all, -, -⟩ := s.writeBlockEx_sent fragmentation live T str (str.length % T.values)
    have small : ¬(maxSize : Nat) < str.length := unrefused
    rw [write, Sender.writeStringEx, if_neg small, all]
  | _ => exact absurd trivial unaccepted

theorem Item.write_refused {s : Sender} {item : Item} (refused : item.Refused) :
    item.write fragmentation s = (false, s.shutdownSocket) := by
  cases item with
  | stringEx T str maxSize maxLenght =>
    have long : (maxSize : Nat) < str.length := refused
    rw [write, Sender.writeStringEx, if_pos long]
  | _ => exact refused.elim

theorem Item.write_shut {s : Sender} (shut : s.shut = true) (item : Item) : item.write fragmentation s = (false, s) := by
  have same : s.shutdownSocket = s := by
    cases s
    cases shut
    rfl
  have header : ∀ (T : Width) (value : Nat), networkOrder T.bytes value ≠ [] := by
    intro T value none
    have length := length_networkOrder T.bytes value
    rw [none] at length
    cases T <;> cases length
  have block : ∀ (T : Width) (data : Bytes) (datalen : Nat),
      s.writeBlockEx fragmentation T data datalen = (false, s) := by
    intro T data datalen
    rw [Sender.writeBlockEx, Sender.writeFull_shut fragmentation shut (header T datalen)]
  cases item with
  | u T c =>
    rw [write, Sender.writeU, Sender.writeFull_shut fragmentation shut (header T c), Sender.deSync, same]
  | blockEx T data datalen must => exact block T data data.val.length
  | blockWAllocEx T data datalen => exact block T data data.val.length
  | stringEx T str maxSize maxLenght =>
    rw [write, Sender.writeStringEx]
    split
    · rw [same]
    · exact block T str _

theorem writeAll_shut (items : List Item) {s : Sender} (shut : s.shut = true) :
    writeAll fragmentation items s = (items.map fun _ => false, s) := by
  induction items with
  | nil => rfl
  | cons item rest ih => simp only [writeAll, item.write_shut fragmentation shut, ih, List.map_cons]

theorem delivered_of_accepted {item : Item} (accepted : item.Accepted) (rest : List Item) :
    delivered (item :: rest) = item :: delivered rest ∧ undelivered (item :: rest) = undelivered rest := by
  simp [delivered, undelivered, accepted]

theorem delivered_of_not_accepted {item : Item} (unaccepted : ¬item.Accepted) (rest : List Item) :
    delivered (item :: rest) = [] ∧ undelivered (item :: rest) = item :: rest := by
  simp [delivered, undelivered, unaccepted]

/-- All that is to be written is, and nothing behind a refusal. -/
theorem writeAll_refused (items : List Item) {s : Sender} (live : s.shut = false)
    (refused : ∀ item ∈ (undelivered items).head?, item.Refused) :
    (writeAll fragmentation items s).1 =
        (delivered items).map (fun _ => true) ++ (undelivered items).map (fun _ => false) ∧
      (writeAll fragmentation items s).2.sent = s.sent ++ (delivered items).flatMap Item.bytes := by
  induction items generalizing s with
  | nil => exact ⟨rfl, (List.append_nil _).symm⟩
  | cons item rest ih =>
    by_cases accepted : item.Accepted
    · obtain ⟨front, back⟩ := delivered_of_accepted accepted rest
      obtain ⟨s', written, sent, live'⟩ := item.write_accepted fragmentation live accepted
      rw [back] at refused
      obtain ⟨answers, later⟩ := ih live' refused
      rw [front, back]
      simp only [writeAll, written, answers, later, sent, List.map_cons, List.flatMap_cons, List.cons_append,
        List.append_assoc, and_self]
    · obtain ⟨front, back⟩ := delivered_of_not_accepted accepted rest
      have first := refused item (by rw [back, List.head?_cons, Option.mem_some_iff])
      have shut := writeAll_shut fragmentation rest (s := s.shutdownSocket) rfl
      rw [front, back]
      simp only [writeAll, item.write_refused fragmentation first, shut]
      exact ⟨rfl, (List.append_nil _).symm⟩

/-- The answers tell of a string that is let through. -/
theorem refused_of_writeAll (items : List Item) {s : Sender} (live : s.shut = false)
    (answers : (writeAll fragmentation items s).1 =
      (delivered items).map (fun _ => true) ++ (undelivered items).map (fun _ => false)) :
    ∀ item ∈ (undelivered items).head?, item.Refused := by
  induction items generalizing s with
  | nil => intro item none; cases none
  | cons item rest ih =>
    by_cases accepted : item.Accepted
    · obtain ⟨front, back⟩ := delivered_of_accepted accepted rest
      obtain ⟨s', written, -, live'⟩ := item.write_accepted fragmentation live accepted
      rw [front, back] at answers
      simp only [writeAll, written, List.map_cons, List.cons_append, List.cons.injEq, true_and] at answers
      rw [back]
      exact ih live' answers
    · obtain ⟨front, back⟩ := delivered_of_not_accepted accepted rest
      rw [front, back] at answers
      simp only [writeAll, List.map_nil, List.nil_append, List.map_cons, List.cons.injEq] at answers
      intro other first
      rw [back, List.head?_cons, Option.mem_some_iff] at first
      rw [← first]
      by_contra unrefused
      rw [item.write_let_through fragmentation live accepted unrefused] at answers
      cases answers.1

/-! ## Reading -/

theorem Item.read_readable {item : Item} (accepted : item.Accepted) (sufficient : item.Sufficient)
    (readable : item.Readable) {r : Receiver} (live : r.shut = false) {later : Bytes}
    (left : r.left = item.bytes ++ later) :
    ∃ r', item.read fragmentation r = (some item.value, r') ∧ r'.left = later ∧ r'.shut = false := by
  cases item with
  | u T c =>
    obtain ⟨r', read, kept⟩ := r.readU_value fragmentation live c.isLt left
    exact ⟨r', by rw [Item.read, read]; rfl, kept⟩
  | blockEx T data datalen must =>
    rw [bytes, List.append_assoc] at left
    obtain ⟨r', read, kept⟩ := r.readBlockEx_block fragmentation live data.property left readable sufficient.1 sufficient.2
    exact ⟨r', by rw [Item.read, read]; rfl, kept⟩
  | blockWAllocEx T data datalen =>
    rw [bytes, List.append_assoc] at left
    obtain ⟨r', read, kept⟩ := r.readBlockWAllocEx_block fragmentation live data.property left _ sufficient readable
    exact ⟨r', by rw [Item.read, read]; rfl, kept⟩
  | stringEx T str maxSize maxLenght =>
    rw [bytes, List.append_assoc] at left
    obtain ⟨r', read, kept⟩ := r.readBlockWAllocEx_block fragmentation live accepted.2 left (some maxLenght)
      sufficient readable
    exact ⟨r', by rw [Item.read, Receiver.readStringEx, read]; rfl, kept⟩

theorem readAll_readable (items : List Item) (accepted : ∀ item ∈ items, item.Accepted)
    (sufficient : ∀ item ∈ items, item.Sufficient) (readable : ∀ item ∈ items, item.Readable) {r : Receiver}
    (live : r.shut = false) {later : Bytes} (left : r.left = items.flatMap Item.bytes ++ later) :
    (readAll fragmentation items r).1 = items.map (fun item => some item.value) ∧
      (readAll fragmentation items r).2.left = later := by
  induction items generalizing r with
  | nil => exact ⟨rfl, left⟩
  | cons item rest ih =>
    rw [List.forall_mem_cons] at accepted sufficient readable
    rw [List.flatMap_cons, List.append_assoc] at left
    obtain ⟨r', read, left', live'⟩ :=
      item.read_readable fragmentation accepted.1 sufficient.1 readable.1 live left
    obtain ⟨values, kept⟩ := ih accepted.2 sufficient.2 readable.2 live' left'
    simp only [readAll, read, values, kept, List.map_cons, and_self]

/-- How many bytes a read takes that gives the right value. -/
def Item.taken : Item → Nat
  | blockEx T data datalen _ => if datalen.val = 0 then 0 else T.bytes + data.val.length
  | item => item.bytes.length

theorem Item.bytes_ne_nil (item : Item) : 0 < item.bytes.length := by
  have width : ∀ T : Width, 0 < T.bytes := by
    intro T
    cases T <;> decide
  cases item with
  | u T _ | blockEx T _ _ _ | blockWAllocEx T _ _ | stringEx T _ _ _ =>
    have some := width T
    simp only [bytes, List.length_append, length_networkOrder]
    omega

theorem Item.taken_le (item : Item) : item.taken ≤ item.bytes.length := by
  cases item with
  | blockEx T data datalen must =>
    rw [taken, bytes, List.length_append, length_networkOrder]
    split <;> omega
  | _ => exact Nat.le_refl _

/-- A read that gives the right value takes no more, and if it takes it all the item can be read. -/
theorem Item.read_value {item : Item} {r r' : Receiver} (live : r.shut = false)
    (read : item.read fragmentation r = (some item.value, r')) :
    r.Reads item.taken r' ∧ (item.taken = item.bytes.length → item.Readable) := by
  have allocates : ∀ {T : Width} {datalen : Option Nat} {data : Bytes},
      allocated (r.readBlockWAllocEx fragmentation T datalen) = (some (.bytes data), r') →
        r.Reads (networkOrder T.bytes data.length ++ data).length r' ∧ data.length ≤ T.sizePlusOne data.length := by
    intro T datalen data read
    generalize answer : r.readBlockWAllocEx fragmentation T datalen = result at read
    obtain ⟨outcome, r''⟩ := result
    cases outcome with
    | block data' =>
      cases read
      rw [List.length_append, length_networkOrder]
      exact r.readBlockWAllocEx_some fragmentation live answer
    | failed => cases read
    | overflows => cases read
  cases item with
  | u T c =>
    rw [Item.read] at read
    generalize answer : r.readU fragmentation T = result at read
    obtain ⟨outcome, r''⟩ := result
    cases outcome with
    | none => cases read
    | some value =>
      have same : r'' = r' := congrArg Prod.snd read
      obtain ⟨reads, -⟩ := r.readU_some fragmentation live answer
      have length := length_networkOrder T.bytes c
      rw [← same]
      rw [← length] at reads
      exact ⟨reads, fun _ => trivial⟩
  | blockEx T data datalen must =>
    rw [Item.read] at read
    rw [taken]
    by_cases room : datalen.val = 0
    · rw [Receiver.readBlockEx, if_pos room] at read
      have same : r = r' := congrArg Prod.snd read
      rw [if_pos room, ← same]
      refine ⟨⟨Nat.zero_le _, rfl, live⟩, fun none => ?_⟩
      have some := (blockEx T data datalen must).bytes_ne_nil
      omega
    · rw [if_neg room]
      generalize answer : r.readBlockEx fragmentation T datalen must = result at read
      obtain ⟨outcome, r''⟩ := result
      cases outcome with
      | none => cases read
      | some data' =>
        cases read
        exact ⟨r.readBlockEx_some fragmentation live room answer, fun _ => room⟩
  | blockWAllocEx T data datalen =>
    obtain ⟨reads, memory⟩ := allocates read
    exact ⟨reads, fun _ => memory⟩
  | stringEx T str maxSize maxLenght =>
    obtain ⟨reads, memory⟩ := allocates read
    exact ⟨reads, fun _ => memory⟩

/-- If all values are right and all bytes are taken, every item can be read. -/
theorem readable_of_readAll (items : List Item) {r : Receiver} (live : r.shut = false)
    (values : (readAll fragmentation items r).1 = items.map fun item => some item.value) :
    (readAll fragmentation items r).2.left.length + (items.map Item.taken).sum = r.left.length ∧
      ((items.map Item.taken).sum = (items.flatMap Item.bytes).length → ∀ item ∈ items, item.Readable) ∧
      (items.map Item.taken).sum ≤ (items.flatMap Item.bytes).length := by
  induction items generalizing r with
  | nil => exact ⟨rfl, fun _ _ none => absurd none List.not_mem_nil, Nat.le_refl _⟩
  | cons item rest ih =>
    generalize answer : item.read fragmentation r = result
    obtain ⟨value, r'⟩ := result
    simp only [readAll, answer, List.map_cons, List.cons.injEq] at values ⊢
    obtain ⟨rfl, values⟩ := values
    obtain ⟨reads, readable⟩ := item.read_value fragmentation live answer
    obtain ⟨taken, others, less⟩ := ih reads.live values
    have first := item.taken_le
    have enough := reads.enough
    rw [reads.left, List.length_drop] at taken
    rw [List.sum_cons, List.flatMap_cons, List.length_append]
    refine ⟨by omega, fun all => ?_, by omega⟩
    rw [List.forall_mem_cons]
    exact ⟨readable (by omega), others (by omega)⟩

end

theorem accepted_of_mem_delivered {items : List Item} {item : Item} (member : item ∈ delivered items) :
    item.Accepted := by
  simpa using List.mem_takeWhile_imp member

theorem mem_of_mem_delivered {items : List Item} {item : Item} (member : item ∈ delivered items) : item ∈ items :=
  (List.takeWhile_sublist _).subset member

/-! ## There and back -/

theorem sound_of_roundTrips {items : List Item} (roundTrips : RoundTrips items) : Sound items := by
  obtain ⟨answers, values, left⟩ := roundTrips (fun _ => 0) (fun _ => 0) []
  have refused := refused_of_writeAll (fun _ => 0) items rfl answers
  obtain ⟨-, sent⟩ := writeAll_refused (fun _ => 0) items (s := {}) rfl refused
  refine ⟨refused, ?_⟩
  obtain ⟨taken, readable, -⟩ := readable_of_readAll (fun _ => 0) (delivered items) rfl values
  apply readable
  rw [left, sent] at taken
  simpa using taken

/-- With sufficient capacities a sequence comes back if and only if it is sound. -/
theorem comesBack_iff {items : List Item} (sufficient : ∀ item ∈ items, item.Sufficient) :
    RoundTrips items ↔ Sound items := by
  constructor
  · exact sound_of_roundTrips
  · intro sound outgoing incoming later
    obtain ⟨answers, sent⟩ := writeAll_refused outgoing items (s := {}) rfl sound.refused
    refine ⟨answers, ?_⟩
    apply readAll_readable incoming (delivered items) (fun _ => accepted_of_mem_delivered)
      (fun item member => sufficient item (mem_of_mem_delivered member)) sound.readable rfl
    rw [sent]
    rfl

/-- A number, a string up to its maximum, a block and an allocated one, and a string that is refused. -/
theorem comesBack_iff_typed :
    RoundTrips [.u .u16 ⟨258, by decide⟩, .stringEx .u8 [97, 98] ⟨254, by decide⟩ ⟨254, by decide⟩,
      .blockEx .u32 ⟨[1, 2, 3], by decide⟩ ⟨3, by decide⟩ true, .blockWAllocEx .u8 ⟨[], by decide⟩ none,
      .stringEx .u8 [97, 98] ⟨1, by decide⟩ ⟨254, by decide⟩] := by
  refine (comesBack_iff ?_).mpr ⟨?_, ?_⟩
  · decide
  · decide
  · decide

/-- An empty block that is read into no room leaves its header behind. -/
theorem comesBack_fails : ¬∀ items : List Item, (∀ item ∈ items, item.Sufficient) → RoundTrips items := by
  intro all
  obtain ⟨-, values, -⟩ := all [.blockEx .u8 ⟨[], by decide⟩ ⟨0, by decide⟩ false, .u .u8 ⟨7, by decide⟩]
    (by simp [Item.Sufficient]) (fun _ => 0) (fun _ => 0) []
  revert values
  decide

end Mantids.Network
