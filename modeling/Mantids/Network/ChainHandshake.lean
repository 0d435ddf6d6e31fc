import Mantids.Memory.SubParser
import Mantids.Network.ChainTransport

/-! The handshake of the AES chain (`socket_chain_aes.cpp`) for every block size: what of its header goes over the
socket, and whether the loops that enlarge the key stream end. -/

set_option autoImplicit false

namespace Mantids.Network.ChainHandshake

open Memory

/-- Which arrays are granted (none of 2^63 bytes or more), what is left in them, and whether OpenSSL does its work. -/
structure Machine where
  memory : Nat → Bool
  memory_word : ∀ n, memory n = true → n < 2 ^ 63
  fresh : Streams.Fresh
  openSSL : Bool

inductive Failure where
  | returnsFalse
  | badAlloc
  deriving DecidableEq

section
variable {crypto : Crypto}

/-! ## The key stream -/

/-- The size is passed on as an `int`: OpenSSL encrypts so many bytes of the plain text, and refuses a size below
zero. Behind them the block is what the array had in it. -/
def appendNewAESBlock (machine : Machine) (aesRegenBlockSize : Nat) (params : SideParams crypto) (key iv : Bytes) :
    Except Failure (SideParams crypto) :=
  if machine.memory (aesRegenBlockSize * 2 % 2 ^ 64) = false then .error .badAlloc
  else if machine.openSSL = false then .error .returnsFalse
  else if machine.memory aesRegenBlockSize = false then .error .badAlloc
  else if 2 ^ 31 ≤ aesRegenBlockSize % 2 ^ 32 then .error .returnsFalse
  else
    let encrypted := crypto.encrypt key iv ((genPlainText aesRegenBlockSize).take (aesRegenBlockSize % 2 ^ 32))
    let cipherText := encrypted ++ (machine.fresh (aesRegenBlockSize * 2 % 2 ^ 64)).toList.drop encrypted.length
    if machine.memory (aesRegenBlockSize + params.aesBlock.length) = false then .error .badAlloc
    else .ok { params with aesBlock := params.aesBlock ++ cipherText.take aesRegenBlockSize }

/-- The loop that enlarges the key stream, on a machine for each turn. Without turns enough there is no result. -/
def enlarge (machines : Nat → Machine) (aesRegenBlockSize datalen : Nat) :
    (turns turn : Nat) → SideParams crypto → Option (Except Failure (SideParams crypto))
  | 0, _, params => if params.aesBlock.length < datalen then none else some (.ok params)
  | turns + 1, turn, params =>
    if params.aesBlock.length < datalen then
      let params := params.regenIV
      match appendNewAESBlock (machines turn) aesRegenBlockSize params params.handshake.phase2Key params.currentIV with
      | .error failure => some (.error failure)
      | .ok params => enlarge machines aesRegenBlockSize datalen turns (turn + 1) params
    else some (.ok params)

/-! ## The data phase -/

def partialRead (machines : Nat → Machine) (turns : Nat) (socket : SocketChainAES crypto) (received : Bytes) :
    Option (Except Failure (Bytes × SocketChainAES crypto)) :=
  if ¬socket.initialized ∨ received = [] then some (.ok (received, socket))
  else
    (enlarge machines socket.aesRegenBlockSize received.length turns 0 socket.readParams).map fun enlarged =>
      enlarged.map fun params =>
        let (data, params) := params.cryptoXOR received false
        (data, { socket with readParams := params })

/-- The socket takes as many bytes as `sent` says, none for an error. -/
def partialWrite (machines : Nat → Machine) (turns : Nat) (socket : SocketChainAES crypto) (data : Bytes) (sent : Nat) :
    Option (Except Failure (Bytes × SocketChainAES crypto)) :=
  if ¬socket.initialized then some (.ok (data.take sent, socket))
  else
    (enlarge machines socket.aesRegenBlockSize data.length turns 0 socket.writeParams).map fun enlarged =>
      enlarged.map fun params =>
        let (edata, params) := params.cryptoXOR data true
        let transmitted := edata.take sent
        (transmitted, { socket with
          writeParams := if 0 < transmitted.length then params.reduce transmitted.length else params })

/-! ## The handshake -/

/-- What a run of the handshake meets with. -/
structure Circumstances where
  random : Randomness
  transmission : Machine
  reception : Machine
  breaksIV : Option Nat
  breaksHeader : Option Nat
  outgoing : Fragmentation
  incoming : Fragmentation

/-- The header with the keys for the data. -/
def header (random : Randomness) : HandShakeHeader :=
  ⟨HandShakeHeader.IHDR, random.IVSeed, random.phase2Key, List.replicate 60 0⟩

def transmit (run : Circumstances) (socket : SocketChainAES crypto) (s : Sender) :
    Except Failure (SocketChainAES crypto) × Sender :=
  match s.writeFullOn run.outgoing run.breaksIV run.random.handShakeIV with
  | (false, s) => (.error .returnsFalse, s)
  | (true, s) =>
    match appendNewAESBlock run.transmission socket.aesRegenBlockSize socket.writeParams socket.phase1Key
        run.random.handShakeIV with
    | .error failure => (.error failure, s)
    | .ok params =>
      -- nobody asks `cryptoXOR` whether it has done anything
      let (vFirstLoad, params) :=
        { params with handshake := header run.random }.cryptoXOR (header run.random).bytes false
      match s.writeFullOn run.outgoing run.breaksHeader vFirstLoad with
      | (false, s) => (.error .returnsFalse, s)
      | (true, s) => (.ok { socket with writeParams := params.seeded }, s)

def receive (run : Circumstances) (socket : SocketChainAES crypto) (r : Receiver) :
    Except Failure (SocketChainAES crypto) × Receiver :=
  match r.readFull run.incoming 16 with
  | (false, _, r) => (.error .returnsFalse, r)
  | (true, handShakeIV, r) =>
    match r.readFull run.incoming 112 with
    | (false, _, r) => (.error .returnsFalse, r)
    | (true, vFirstLoad, r) =>
      match appendNewAESBlock run.reception socket.aesRegenBlockSize socket.readParams socket.phase1Key handShakeIV with
      | .error failure => (.error failure, r)
      | .ok params =>
        let (load, params) := params.cryptoXOR vFirstLoad false
        let params := { params with handshake := HandShakeHeader.ofBytes load }
        if params.handshake.magicBytes ≠ HandShakeHeader.IHDR then (.error .returnsFalse, r)
        else (.ok { socket with readParams := params.seeded, initialized := true }, r)

/-- The transmission and then the reception. -/
def postAcceptSubInitialization (run : Circumstances) (socket : SocketChainAES crypto) (s : Sender) (r : Receiver) :
    Except Failure (SocketChainAES crypto) × Sender × Receiver :=
  match transmit run socket s with
  | (.error failure, s) => (.error failure, s, r)
  | (.ok socket, s) =>
    let (outcome, r) := receive run socket r
    (outcome, s, r)

/-! ## Blocks -/

theorem appendNewAESBlock_ok {machine : Machine} {size : Nat} {params params' : SideParams crypto} {key iv : Bytes}
    (appended : appendNewAESBlock machine size params key iv = .ok params') :
    size < 2 ^ 62 ∧ size % 2 ^ 32 < 2 ^ 31 ∧ ∃ rest, rest.length + size % 2 ^ 32 = size ∧
      params' = { params with aesBlock := params.aesBlock ++
        (crypto.encrypt key iv ((genPlainText size).take (size % 2 ^ 32)) ++ rest) } := by
  unfold appendNewAESBlock at appended
  split_ifs at appended with double openSSL single negative both
  have word := machine.memory_word size (by simpa using single)
  have word' := machine.memory_word (size * 2 % 2 ^ 64) (by simpa using double)
  rw [Nat.mod_eq_of_lt (by omega)] at word'
  have inside := Nat.mod_le size (2 ^ 32)
  have length : (crypto.encrypt key iv ((genPlainText size).take (size % 2 ^ 32))).length = size % 2 ^ 32 := by
    rw [crypto.length_encrypt, List.length_take, length_genPlainText, Nat.min_eq_left inside]
  refine ⟨by omega, Nat.not_le.mp negative, ?_⟩
  cases appended
  generalize crypto.encrypt key iv ((genPlainText size).take (size % 2 ^ 32)) = encrypted at length
  refine ⟨((machine.fresh (size * 2 % 2 ^ 64)).toList.drop encrypted.length).take (size - encrypted.length), ?_, ?_⟩
  · rw [List.length_take, List.length_drop, Vector.length_toList, length, Nat.mod_eq_of_lt (by omega : size * 2 < 2 ^ 64)]
    omega
  · rw [List.take_append, List.take_of_length_le (by omega)]

/-- A machine with memory that does what OpenSSL is asked for. -/
def generous : Machine where
  memory n := decide (n < 2 ^ 63)
  memory_word _ granted := of_decide_eq_true granted
  fresh size := Vector.replicate size 0
  openSSL := true

theorem appendNewAESBlock_generous {size : Nat} (small : size < 2 ^ 62) (positive : size % 2 ^ 32 < 2 ^ 31)
    {params : SideParams crypto} (empty : params.aesBlock = []) (key iv : Bytes) :
    ∃ params', appendNewAESBlock generous size params key iv = .ok params' := by
  have granted (n : Nat) (less : n < 2 ^ 63) : ¬generous.memory n = false := by
    have same : generous.memory n = true := decide_eq_true less
    rw [same]
    exact Bool.noConfusion
  unfold appendNewAESBlock
  rw [if_neg (granted _ (by omega)), if_neg (by decide), if_neg (granted _ (by omega)), if_neg (by omega),
    if_neg (granted _ (by rw [empty, List.length_nil]; omega))]
  exact ⟨_, rfl⟩

/-- On such a machine and with a size that an `int` has, it is the block of the chain's transport. -/
theorem appendNewAESBlock_eq {machine : Machine} {size : Nat} (small : size < 2 ^ 31) (params : SideParams crypto)
    (key iv : Bytes) (openSSL : machine.openSSL = true)
    (memory : ∀ n ≤ max (size * 2) (size + params.aesBlock.length), machine.memory n = true) :
    appendNewAESBlock machine size params key iv = .ok (params.appendNewAESBlock size key iv) := by
  have word : size % 2 ^ 32 = size := Nat.mod_eq_of_lt (by omega)
  have double : size * 2 % 2 ^ 64 = size * 2 := Nat.mod_eq_of_lt (by omega)
  have length : (crypto.encrypt key iv (genPlainText size)).length = size := by
    rw [crypto.length_encrypt, length_genPlainText]
  unfold appendNewAESBlock
  rw [word, double, memory _ (Nat.le_max_left _ _), memory _ (by omega), memory _ (Nat.le_max_right _ _), openSSL,
    List.take_of_length_le (Nat.le_of_eq (length_genPlainText size))]
  simp only [Bool.true_eq_false, if_false]
  rw [if_neg (by omega), List.take_left' length]
  rfl

theorem enlarge_ends (machines : Nat → Machine) {size : Nat} (some : size ≠ 0) (datalen turns turn : Nat)
    {params : SideParams crypto} (enough : datalen ≤ params.aesBlock.length + turns) :
    (enlarge machines size datalen turns turn params).isSome = true := by
  induction turns generalizing turn params with
  | zero => rw [enlarge, if_neg (by omega)]; rfl
  | succ turns ih =>
    rw [enlarge]
    split
    case isTrue less =>
      dsimp only
      split
      case h_1 => rfl
      case h_2 params' appended =>
        apply ih
        have kept : params.regenIV.aesBlock = params.aesBlock := by
          unfold SideParams.regenIV
          split <;> rfl
        obtain ⟨-, -, rest, length, rfl⟩ := appendNewAESBlock_ok appended
        rw [List.length_append, List.length_append, crypto.length_encrypt, List.length_take, length_genPlainText, kept]
        have inside := Nat.mod_le size (2 ^ 32)
        omega
    case isFalse => rfl

/-! ## What goes over the socket -/

/-- What AES makes of the plain text with `phase1Key` and the handshake's vector. -/
def keystream (crypto : Crypto) (phase1Key : Bytes) (random : Randomness) (size : Nat) : Bytes :=
  crypto.encrypt phase1Key random.handShakeIV ((genPlainText size).take (size % 2 ^ 32))

theorem length_keystream (phase1Key : Bytes) (random : Randomness) (size : Nat) :
    (keystream crypto phase1Key random size).length = size % 2 ^ 32 := by
  rw [keystream, crypto.length_encrypt, List.length_take, length_genPlainText, Nat.min_eq_left (Nat.mod_le _ _)]

theorem length_header (random : Randomness) : (header random).bytes.length = 112 := by
  obtain ⟨handShakeIV, ⟨phase2Key, long⟩, ⟨IVSeed, short⟩⟩ := random
  simp [header, HandShakeHeader.bytes, HandShakeHeader.IHDR, long, short]

/-- The header as it is written where the block is there. -/
def load (params : SideParams crypto) (random : Randomness) : Bytes :=
  ({ params with handshake := header random }.cryptoXOR (header random).bytes false).1

/-- What the transmission writes: a front of the vector, and of the header behind it once there is a block. -/
theorem transmit_sent (run : Circumstances) (socket : SocketChainAES crypto) {s : Sender} (live : s.shut = false) :
    ∃ front, (transmit run socket s).2.sent = s.sent ++ front ∧ (front <+: run.random.handShakeIV.val ∨
      ∃ params, appendNewAESBlock run.transmission socket.aesRegenBlockSize socket.writeParams socket.phase1Key
          run.random.handShakeIV = .ok params ∧
        front <+: run.random.handShakeIV.val ++ load params run.random) := by
  obtain ⟨ok, s₁, first, written, sent, begins, all⟩ :=
    Sender.writeFullOn_sent run.outgoing run.breaksIV live run.random.handShakeIV
  rw [transmit, written]
  cases ok with
  | false => exact ⟨first, sent, .inl begins⟩
  | true =>
    obtain ⟨rfl, live₁⟩ := all rfl
    dsimp only
    cases appended : appendNewAESBlock run.transmission socket.aesRegenBlockSize socket.writeParams socket.phase1Key
        run.random.handShakeIV with
    | error failure => exact ⟨_, sent, .inl (List.prefix_refl _)⟩
    | ok params =>
      dsimp only
      obtain ⟨ok, s₂, second, written₂, sent₂, begins₂, -⟩ :=
        Sender.writeFullOn_sent run.outgoing run.breaksHeader live₁ (load params run.random)
      have result : (s₁.writeFullOn run.outgoing run.breaksHeader
          ({ params with handshake := header run.random }.cryptoXOR (header run.random).bytes false).1) = (ok, s₂) := written₂
      rw [result]
      refine ⟨run.random.handShakeIV ++ second, ?_, .inr ⟨params, rfl, (List.prefix_append_right_inj _).mpr begins₂⟩⟩
      cases ok with
      | false => exact (sent₂.trans (by rw [sent, List.append_assoc]))
      | true => exact (sent₂.trans (by rw [sent, List.append_assoc]))

theorem length_load (params : SideParams crypto) (random : Randomness) : (load params random).length = 112 := by
  have whole := length_header random
  rw [load, SideParams.cryptoXOR]
  split
  case isTrue => exact whole
  case isFalse long =>
    rw [Nat.not_lt] at long
    exact (List.length_zipWith ..).trans (by rw [Nat.min_eq_left long, whole])

/-- With a block that is not shorter than the header, it is the header under the key stream. -/
theorem load_eq {machine : Machine} {phase1Key : Bytes} {size : Nat} {params : SideParams crypto} {random : Randomness}
    (appended : appendNewAESBlock machine size SideParams.new phase1Key random.handShakeIV = .ok params)
    (long : 112 ≤ size % 2 ^ 32) :
    load params random = List.zipWith (· ^^^ ·) (header random).bytes (keystream crypto phase1Key random size) := by
  have whole := length_header random
  have length := @length_keystream crypto phase1Key random size
  obtain ⟨-, -, rest, -, rfl⟩ := appendNewAESBlock_ok appended
  change (SideParams.cryptoXOR _ _ _).1 = _
  rw [SideParams.cryptoXOR]
  change (if (([] : Bytes) ++ (keystream crypto phase1Key random size ++ rest)).length < (header random).bytes.length then
    _ else _ : Bytes × SideParams crypto).1 = _
  rw [List.nil_append, if_neg (by rw [List.length_append]; omega)]
  change List.zipWith _ _ (keystream crypto phase1Key random size ++ rest) = _
  generalize (header random).bytes = text at whole
  generalize keystream crypto phase1Key random size = keys at length
  have enough : text.length ≤ keys.length := by omega
  clear whole length appended
  induction text generalizing keys with
  | nil => rfl
  | cons byte text ih =>
    cases keys with
    | nil => exact absurd enough (by simp)
    | cons key keys =>
      rw [List.cons_append, List.zipWith_cons_cons, List.zipWith_cons_cons, ih keys (by simpa using enough)]

/-- On a connection that holds, all is written. -/
theorem transmit_whole {run : Circumstances} (holds : run.breaksIV = none ∧ run.breaksHeader = none)
    {socket : SocketChainAES crypto} {params : SideParams crypto}
    (appended : appendNewAESBlock run.transmission socket.aesRegenBlockSize socket.writeParams socket.phase1Key
      run.random.handShakeIV = .ok params) {s : Sender} (live : s.shut = false) :
    (transmit run socket s).2.sent = s.sent ++ run.random.handShakeIV ++ load params run.random := by
  obtain ⟨s₁, written, sent, live₁⟩ := Sender.writeFull_sent run.outgoing live run.random.handShakeIV
  obtain ⟨s₂, written₂, sent₂, -⟩ := Sender.writeFull_sent run.outgoing live₁ (load params run.random)
  rw [transmit, holds.1, holds.2, Sender.writeFullOn, written]
  dsimp only
  rw [appended]
  dsimp only
  change (match s₁.writeFull run.outgoing (load params run.random) with
    | (false, s) => (_, s)
    | (true, s) => (_, s) : Except Failure (SocketChainAES crypto) × Sender).2.sent = _
  rw [written₂]
  exact sent₂.trans (by rw [sent])

/-- Only the transmission writes. -/
theorem postAccept_sent (run : Circumstances) (socket : SocketChainAES crypto) (s : Sender) (r : Receiver) :
    (postAcceptSubInitialization run socket s r).2.1 = (transmit run socket s).2 := by
  rw [postAcceptSubInitialization]
  split
  case h_1 sent => rw [sent]
  case h_2 sent => rw [sent]

/-! ## The handshake and the block size -/

/-- In every run a socket with this block size writes of the header nothing but bytes that were combined with the key
stream, and neither reading nor writing goes on for ever. -/
structure Confidential (crypto : Crypto) (phase1Key : Bytes) (size : Fin (2 ^ 64)) : Prop where
  covered : ∀ (run : Circumstances) (r : Receiver),
    (postAcceptSubInitialization run (@SocketChainAES.new crypto phase1Key size) {} r).2.1.sent <+:
      run.random.handShakeIV ++
        List.zipWith (· ^^^ ·) (header run.random).bytes (keystream crypto phase1Key run.random size)
  reads : ∀ (machines : Nat → Machine) (socket : SocketChainAES crypto) (received : Bytes),
    socket.aesRegenBlockSize = size → ∃ turns, (partialRead machines turns socket received).isSome = true
  writes : ∀ (machines : Nat → Machine) (socket : SocketChainAES crypto) (data : Bytes) (sent : Nat),
    socket.aesRegenBlockSize = size → ∃ turns, (partialWrite machines turns socket data sent).isSome = true

/-- A run in which nothing fails. -/
def smooth (random : Randomness) : Circumstances := ⟨random, generous, generous, none, none, fun _ => 0, fun _ => 0⟩

/-- With blocks of 64 bytes the header is written as it is. -/
theorem not_confidential : ¬Confidential plainCrypto [] ⟨64, by decide⟩ := by
  intro confidential
  have length := (confidential.covered (smooth plainRandomness) { left := [] }).length_le
  revert length
  decide +kernel

/-- The key is kept where the low 32 bits of the block size are not below the header's 112 bytes (as an `int` below zero
they are refused), and where the size is one that no memory is granted for. -/
theorem confidential_iff (crypto : Crypto) (phase1Key : Bytes) (size : Fin (2 ^ 64)) :
    Confidential crypto phase1Key size ↔ 112 ≤ (size : Nat) % 2 ^ 32 ∨ 2 ^ 62 ≤ (size : Nat) := by
  constructor
  case mp =>
    intro confidential
    by_contra neither
    rw [not_or, Nat.not_le, Nat.not_le] at neither
    obtain ⟨params, appended⟩ := @appendNewAESBlock_generous crypto size neither.2 (by omega) SideParams.new rfl
      phase1Key plainRandomness.handShakeIV
    have covered := (confidential.covered (smooth plainRandomness) { left := [] }).length_le
    rw [postAccept_sent, @transmit_whole crypto (smooth plainRandomness) ⟨rfl, rfl⟩
      (SocketChainAES.new phase1Key size) params appended {} rfl, List.length_append, List.length_append, length_load,
      List.length_append, List.length_zipWith, length_keystream, length_header] at covered
    have none : (({} : Sender).sent).length = 0 := rfl
    have vector : (smooth plainRandomness).random = plainRandomness := rfl
    rw [none, vector] at covered
    omega
  case mpr =>
    intro condition
    have some : (size : Nat) ≠ 0 := by omega
    constructor
    case covered =>
      intro run r
      obtain ⟨front, sent, begins⟩ :=
        @transmit_sent crypto run (SocketChainAES.new phase1Key size) {} rfl
      have nothing : ({} : Sender).sent = [] := rfl
      rw [postAccept_sent, sent, nothing, List.nil_append]
      rcases begins with begins | ⟨params, appended, begins⟩
      · exact begins.trans (List.prefix_append _ _)
      · obtain ⟨bounded, -, -⟩ := appendNewAESBlock_ok appended
        have long : 112 ≤ (size : Nat) % 2 ^ 32 := condition.resolve_right (Nat.not_le.mpr bounded)
        have whole : load params run.random =
            List.zipWith (· ^^^ ·) (header run.random).bytes (keystream crypto phase1Key run.random size) :=
          load_eq appended long
        rw [whole] at begins
        exact begins
    case reads =>
      intro machines socket received same
      refine ⟨received.length, ?_⟩
      rw [partialRead]
      split
      case isTrue => rfl
      case isFalse =>
        rw [same, Option.isSome_map]
        exact enlarge_ends machines some _ _ _ (Nat.le_add_left _ _)
    case writes =>
      intro machines socket data sent same
      refine ⟨data.length, ?_⟩
      rw [partialWrite]
      split
      case isTrue => rfl
      case isFalse =>
        rw [same, Option.isSome_map]
        exact enlarge_ends machines some _ _ _ (Nat.le_add_left _ _)

end

end Mantids.Network.ChainHandshake
