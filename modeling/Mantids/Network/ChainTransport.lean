import Mantids.Library.Keystream
import Mantids.Network.ChainAES
import Mantids.Network.StreamFraming

/-! With equal keys and block sizes the chain transports the plain stream in both directions,
unless the blocks are empty: then the first write never returns. -/

set_option autoImplicit false

namespace Mantids.Network

open Memory Library

section
variable {crypto : Crypto}

/-! ## The key stream -/

theorem length_genPlainText (size : Nat) : (genPlainText size).length = size := by
  simp [genPlainText]

/-- The generators after so many vectors. -/
def engineAt (engine : crypto.Engine) : Nat → crypto.Engine
  | 0 => engine
  | n + 1 => (crypto.next (engineAt engine n)).2

/-- The blocks come from the key and the two generators. -/
structure Secret (crypto : Crypto) where
  size : Nat
  key : Bytes
  engines : crypto.Engine × crypto.Engine

namespace Secret
variable (secret : Secret crypto)

def block (n : Nat) : Bytes :=
  crypto.encrypt secret.key
    ((crypto.next (engineAt secret.engines.1 n)).1 ++ (crypto.next (engineAt secret.engines.2 n)).1)
    (genPlainText secret.size)

theorem length_block (n : Nat) : (secret.block n).length = secret.size := by
  rw [block, crypto.length_encrypt, length_genPlainText]

/-- The byte of the key stream at a position. -/
def keyAt (position : Nat) : UInt8 := (secret.block (position / secret.size)).getD (position % secret.size) 0

theorem block_eq (n : Nat) : secret.block n = (List.range' (n * secret.size) secret.size).map secret.keyAt := by
  apply List.ext_getElem
  · simp [length_block]
  · intro i inside _
    rw [length_block] at inside
    have place : (n * secret.size + i) / secret.size = n := by
      rw [Nat.mul_comm, Nat.mul_add_div (by omega), Nat.div_eq_of_lt inside, Nat.add_zero]
    have rest : (n * secret.size + i) % secret.size = i := by
      rw [Nat.mul_comm, Nat.mul_add_mod, Nat.mod_eq_of_lt inside]
    simp [keyAt, place, rest, List.getD_eq_getElem?_getD, length_block, inside]

/-- The parameters of a side that has used the key stream up to a position. -/
def Aligned (position : Nat) (params : SideParams crypto) : Prop :=
  params.handshake.phase2Key = secret.key ∧ ∃ n, position ≤ n * secret.size ∧
    params.mt19937IV = some (engineAt secret.engines.1 n, engineAt secret.engines.2 n) ∧
    params.aesBlock = (List.range' position (n * secret.size - position)).map secret.keyAt

variable {secret} {position : Nat} {params : SideParams crypto}

/-- One more block. -/
theorem Aligned.appended (aligned : secret.Aligned position params) :
    secret.Aligned position
      (params.regenIV.appendNewAESBlock secret.size params.regenIV.handshake.phase2Key params.regenIV.currentIV) := by
  obtain ⟨key, n, fits, engines, block⟩ := aligned
  have more : (n + 1) * secret.size - position = (n * secret.size - position) + secret.size := by
    rw [Nat.succ_mul]
    omega
  have start : position + (n * secret.size - position) = n * secret.size := by omega
  have next : params.regenIV = { params with
      currentIV := (crypto.next (engineAt secret.engines.1 n)).1 ++ (crypto.next (engineAt secret.engines.2 n)).1
      mt19937IV := some (engineAt secret.engines.1 (n + 1), engineAt secret.engines.2 (n + 1)) } := by
    simp only [SideParams.regenIV, engines]
    rfl
  rw [next]
  refine ⟨key, n + 1, by rw [Nat.succ_mul]; omega, rfl, ?_⟩
  have joined := List.range'_append_1 (s := position) (m := n * secret.size - position) (n := secret.size)
  rw [start] at joined
  rw [more, ← joined, List.map_append, ← block, ← secret.block_eq n, Secret.block, ← key]
  rfl

theorem length_regenIV_append (size : Nat) (params : SideParams crypto) :
    (params.regenIV.appendNewAESBlock size params.regenIV.handshake.phase2Key params.regenIV.currentIV).aesBlock.length =
      params.aesBlock.length + size := by
  have kept : params.regenIV.aesBlock = params.aesBlock := by
    unfold SideParams.regenIV
    split <;> rfl
  rw [SideParams.appendNewAESBlock, List.length_append, crypto.length_encrypt, length_genPlainText, kept]

theorem Aligned.enlarge (aligned : secret.Aligned position params) (some : secret.size ≠ 0) {datalen : Nat}
    (turns : Nat) (enough : datalen ≤ params.aesBlock.length + turns) :
    ∃ params', params.enlarge secret.size datalen turns = Option.some params' ∧ secret.Aligned position params' ∧
      datalen ≤ params'.aesBlock.length := by
  induction turns generalizing params with
  | zero => exact ⟨params, by rw [SideParams.enlarge, if_neg (by omega)], aligned, by omega⟩
  | succ turns ih =>
    rw [SideParams.enlarge]
    split
    · apply ih aligned.appended
      rw [length_regenIV_append]
      omega
    · exact ⟨params, rfl, aligned, by omega⟩

/-- The block of an aligned side, combined with a text that it is long enough for. -/
theorem Aligned.zipWith (aligned : secret.Aligned position params) {text : Bytes}
    (enough : text.length ≤ params.aesBlock.length) :
    List.zipWith (· ^^^ ·) text params.aesBlock = combined (· ^^^ ·) secret.keyAt position text := by
  obtain ⟨-, n, -, -, block⟩ := aligned
  rw [block, List.length_map, List.length_range'] at enough
  rw [block, zipWith_keys _ _ _ _ _ enough]

theorem reduce_eq (params : SideParams crypto) (bytes : Nat) :
    params.reduce bytes = { params with aesBlock := params.aesBlock.drop bytes } := by
  unfold SideParams.reduce
  split
  · rename_i all
    rw [List.drop_eq_nil_of_le all]
  · rfl

theorem Aligned.reduce (aligned : secret.Aligned position params) {bytes : Nat}
    (enough : bytes ≤ params.aesBlock.length) : secret.Aligned (position + bytes) (params.reduce bytes) := by
  obtain ⟨key, n, fits, engines, block⟩ := aligned
  rw [block, List.length_map, List.length_range'] at enough
  rw [reduce_eq]
  refine ⟨key, n, by omega, engines, ?_⟩
  have rest : (List.range' position (n * secret.size - position)).drop bytes =
      List.range' (position + bytes) (n * secret.size - (position + bytes)) := by
    rw [List.drop_range', ← Nat.sub_sub]
    simp
  rw [block, ← List.map_drop, rest]

end Secret

/-! ## The handshake -/

/-- The header that is sent. -/
def header (random : Randomness) : HandShakeHeader :=
  ⟨HandShakeHeader.IHDR, random.IVSeed, random.phase2Key, List.replicate 60 0⟩

theorem length_header (random : Randomness) : (header random).bytes.length = 112 := by
  simp [header, HandShakeHeader.bytes, HandShakeHeader.IHDR, random.IVSeed.property, random.phase2Key.property]

/-- What the two sides of a direction share after the handshake. -/
def agreed (crypto : Crypto) (size : Nat) (random : Randomness) : Secret crypto :=
  ⟨size, random.phase2Key, (crypto.seed (random.IVSeed.val.take 8), crypto.seed (random.IVSeed.val.drop 8))⟩

section
variable (phase1Key : Bytes) (size : Nat) (random : Randomness)

end

/-! ## One call -/

section
variable {secret : Secret crypto} {socket : SocketChainAES crypto} (sized : socket.aesRegenBlockSize = secret.size)
  (some : secret.size ≠ 0) (initialized : socket.initialized = true)
include sized some initialized

end

/-! ## Every run -/

/-- The handshake of the other side and the key stream that goes with it. -/
def inboundSecret (crypto : Crypto) (size : Nat) (random : Side → Randomness) (side : Side) : Secret crypto :=
  agreed crypto size (random side.other)

section
variable (phase1Key : Bytes) (size : Nat) (random : Side → Randomness)

/-- The two sides of a direction are at their places in one key stream; before its handshake a side has
read nothing, and the handshake comes first. -/
structure Carries (c : Connection crypto) (side : Side) : Prop where
  sized : (c.socket side).aesRegenBlockSize = size
  writer : (inboundSecret crypto size random side).Aligned (c.inbound side).written.length
    (c.socket side.other).writeParams
  opened : (c.socket side).initialized = true →
    (inboundSecret crypto size random side).Aligned (c.inbound side).read.length (c.socket side).readParams ∧
    (c.inbound side).read.length ≤ (c.inbound side).written.length ∧
    (c.inbound side).read = (c.inbound side).written.take (c.inbound side).read.length ∧
    (c.inbound side).inFlight = combined (· ^^^ ·) (inboundSecret crypto size random side).keyAt
      (c.inbound side).read.length ((c.inbound side).written.drop (c.inbound side).read.length)
  waiting : (c.socket side).initialized = false →
    (c.socket side).phase1Key = phase1Key ∧ (c.socket side).readParams = .new ∧ (c.inbound side).read = [] ∧
    (c.inbound side).inFlight =
      ((@SocketChainAES.new crypto phase1Key size).transmit (random side.other)).1 ++
      ((@SocketChainAES.new crypto phase1Key size).transmit (random side.other)).2.1 ++
      combined (· ^^^ ·) (inboundSecret crypto size random side).keyAt 0 (c.inbound side).written

variable {phase1Key size random} {c : Connection crypto}

/-- A direction looks at its reader's side, at what is on the way to it, and at its writer's parameters. -/
theorem Carries.congr {side : Side} (carries : Carries phase1Key size random c side) {c' : Connection crypto}
    (reader : (c'.socket side).aesRegenBlockSize = (c.socket side).aesRegenBlockSize ∧
      (c'.socket side).initialized = (c.socket side).initialized ∧
      (c'.socket side).phase1Key = (c.socket side).phase1Key ∧
      (c'.socket side).readParams = (c.socket side).readParams)
    (inbound : c'.inbound side = c.inbound side)
    (writer : (c'.socket side.other).writeParams = (c.socket side.other).writeParams) :
    Carries phase1Key size random c' side := by
  obtain ⟨sized, initialized, key, params⟩ := reader
  constructor
  · rw [sized]
    exact carries.sized
  · rw [inbound, writer]
    exact carries.writer
  · rw [initialized, params, inbound]
    exact carries.opened
  · rw [initialized, key, params, inbound]
    exact carries.waiting

end

/-! ## Empty blocks -/

def plainRandomness : Randomness where
  handShakeIV := ⟨List.replicate 16 0, rfl⟩
  phase2Key := ⟨List.replicate 32 0, rfl⟩
  IVSeed := ⟨List.replicate 16 0, rfl⟩

end

/-- A cipher that writes zeros. -/
def plainCrypto : Crypto where
  Engine := Unit
  seed _ := ()
  next _ := (List.replicate 8 0, ())
  encrypt _ _ plainText := List.replicate plainText.length 0
  length_encrypt _ _ _ := List.length_replicate

end Mantids.Network
