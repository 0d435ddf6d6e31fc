import Mantids.Network.StreamBase

/-! The AES chain (`socket_chain_aes.cpp`): the handshake, and the key stream of each
direction. OpenSSL and the generators are deterministic functions. -/

set_option autoImplicit false

namespace Mantids.Network

open Memory

/-- `mt19937_64` under a uniform distribution, and AES, which keeps the length. -/
structure Crypto where
  Engine : Type
  seed : Bytes → Engine
  next : Engine → Bytes × Engine
  encrypt : (key iv plainText : Bytes) → Bytes
  length_encrypt : ∀ key iv plainText, (encrypt key iv plainText).length = plainText.length

/-- `sHandShakeHeader`. -/
structure HandShakeHeader where
  magicBytes : Bytes
  IVSeed : Bytes
  phase2Key : Bytes
  reserved : Bytes
  deriving DecidableEq

namespace HandShakeHeader

def IHDR : Bytes := [73, 72, 68, 82]

/-- As it lies in memory. -/
def bytes (header : HandShakeHeader) : Bytes :=
  header.magicBytes ++ header.IVSeed ++ header.phase2Key ++ header.reserved

def ofBytes (load : Bytes) : HandShakeHeader where
  magicBytes := load.take 4
  IVSeed := (load.drop 4).take 16
  phase2Key := (load.drop 20).take 32
  reserved := (load.drop 52).take 60

end HandShakeHeader

/-- The bytes that `genRandomBytes` draws for a handshake. -/
structure Randomness where
  handShakeIV : { bytes : Bytes // bytes.length = 16 }
  phase2Key : { bytes : Bytes // bytes.length = 32 }
  IVSeed : { bytes : Bytes // bytes.length = 16 }

/-- The byte at each place of the block is a function of the place. -/
def genPlainText (aesRegenBlockSize : Nat) : Bytes :=
  (List.range aesRegenBlockSize).map fun i => UInt8.ofNat (i * 487 % 256)

section
variable (crypto : Crypto)

/-- `sSideParams`; a generator is there from the end of the handshake on. -/
structure SideParams where
  currentIV : Bytes
  mt19937IV : Option (crypto.Engine × crypto.Engine)
  handshake : HandShakeHeader
  aesBlock : Bytes

namespace SideParams
variable {crypto}

def new : SideParams crypto := ⟨[], none, ⟨HandShakeHeader.IHDR, [], [], []⟩, []⟩

def reduce (params : SideParams crypto) (bytes : Nat) : SideParams crypto :=
  if params.aesBlock.length ≤ bytes then { params with aesBlock := [] }
  else { params with aesBlock := params.aesBlock.drop bytes }

/-- The block that is too long is left as it is. -/
def cryptoXOR (params : SideParams crypto) (dataBlock : Bytes) (dontreduce : Bool) : Bytes × SideParams crypto :=
  if params.aesBlock.length < dataBlock.length then (dataBlock, params)
  else
    (List.zipWith (· ^^^ ·) dataBlock params.aesBlock,
      if dontreduce then params else params.reduce dataBlock.length)

def appendNewAESBlock (aesRegenBlockSize : Nat) (params : SideParams crypto) (key iv : Bytes) : SideParams crypto :=
  { params with aesBlock := params.aesBlock ++ crypto.encrypt key iv (genPlainText aesRegenBlockSize) }

def regenIV (params : SideParams crypto) : SideParams crypto :=
  match params.mt19937IV with
  | none => params
  | some (first, second) =>
    { params with
      currentIV := (crypto.next first).1 ++ (crypto.next second).1
      mt19937IV := some ((crypto.next first).2, (crypto.next second).2) }

/-- The loop that enlarges the key stream. Each block adds a byte, so there are turns enough; where
blocks have none the loop has no end. -/
def enlarge (aesRegenBlockSize datalen : Nat) : (turns : Nat) → SideParams crypto → Option (SideParams crypto)
  | 0, params => if params.aesBlock.length < datalen then none else some params
  | turns + 1, params =>
    if params.aesBlock.length < datalen then
      let params := params.regenIV
      enlarge aesRegenBlockSize datalen turns
        (params.appendNewAESBlock aesRegenBlockSize params.handshake.phase2Key params.currentIV)
    else some params

/-- The generators after a handshake. -/
def seeded (params : SideParams crypto) : SideParams crypto :=
  { params with
    aesBlock := []
    mt19937IV := some (crypto.seed (params.handshake.IVSeed.take 8), crypto.seed (params.handshake.IVSeed.drop 8)) }

end SideParams

structure SocketChainAES where
  phase1Key : Bytes
  aesRegenBlockSize : Nat
  readParams : SideParams crypto
  writeParams : SideParams crypto
  initialized : Bool

namespace SocketChainAES
variable {crypto}

def new (phase1Key : Bytes) (aesRegenBlockSize : Nat) : SocketChainAES crypto :=
  ⟨phase1Key, aesRegenBlockSize, .new, .new, false⟩

/-- The transmission of the handshake: the vector and the encrypted header. -/
def transmit (socket : SocketChainAES crypto) (random : Randomness) : Bytes × Bytes × SocketChainAES crypto :=
  let header : HandShakeHeader :=
    ⟨HandShakeHeader.IHDR, random.IVSeed, random.phase2Key, List.replicate 60 0⟩
  let params := socket.writeParams.appendNewAESBlock socket.aesRegenBlockSize socket.phase1Key random.handShakeIV
  let (vFirstLoad, params) := { params with handshake := header }.cryptoXOR header.bytes false
  (random.handShakeIV, vFirstLoad, { socket with writeParams := params.seeded })

/-- The reception: the magic bytes tell if the decryption is right. -/
def receive (socket : SocketChainAES crypto) (handShakeIV vFirstLoad : Bytes) : Option (SocketChainAES crypto) :=
  let params := socket.readParams.appendNewAESBlock socket.aesRegenBlockSize socket.phase1Key handShakeIV
  let (load, params) := params.cryptoXOR vFirstLoad false
  let params := { params with handshake := HandShakeHeader.ofBytes load }
  if params.handshake.magicBytes ≠ HandShakeHeader.IHDR then none
  else some { socket with readParams := params.seeded, initialized := true }

/-- What is read of the socket comes out decrypted; `none` never returns. -/
def partialRead (socket : SocketChainAES crypto) (received : Bytes) : Option (Bytes × SocketChainAES crypto) :=
  if ¬socket.initialized ∨ received = [] then some (received, socket)
  else
    (socket.readParams.enlarge socket.aesRegenBlockSize received.length received.length).map fun params =>
      let (data, params) := params.cryptoXOR received false
      (data, { socket with readParams := params })

/-- What is written to the socket; it takes as many bytes of it as `sent` says, none for an
error. `none` never returns. -/
def partialWrite (socket : SocketChainAES crypto) (data : Bytes) (sent : Nat) : Option (Bytes × SocketChainAES crypto) :=
  if ¬socket.initialized then some (data.take sent, socket)
  else
    (socket.writeParams.enlarge socket.aesRegenBlockSize data.length data.length).map fun params =>
      let (edata, params) := params.cryptoXOR data true
      let transmitted := edata.take sent
      (transmitted, { socket with
        writeParams := if 0 < transmitted.length then params.reduce transmitted.length else params })

end SocketChainAES

/-! ## A connection -/

inductive Side where
  | first
  | second
  deriving DecidableEq

/-- What is on the way to a side, with what the other side has written and this one has read of it. -/
structure Inbound where
  inFlight : Bytes
  written : Bytes
  read : Bytes

structure Connection where
  socket : Side → SocketChainAES crypto
  inbound : Side → Inbound

inductive ConnectionOp where
  /-- The rest of the handshake, with the bytes as the system cuts them. -/
  | receive (side : Side) (fragmentation : Fragmentation)
  | write (side : Side) (data : Bytes) (sent : Nat)
  /-- A read that gets so many of the bytes that are there. -/
  | read (side : Side) (received : Nat)

def Side.other : Side → Side
  | first => second
  | second => first

namespace Connection
variable {crypto}

/-- Both sides have transmitted their part of the handshake. -/
def start (socket : Side → SocketChainAES crypto) (random : Side → Randomness) : Connection crypto where
  socket side := ((socket side).transmit (random side)).2.2
  inbound side :=
    let (handShakeIV, vFirstLoad, _) := (socket side.other).transmit (random side.other)
    ⟨handShakeIV ++ vFirstLoad, [], []⟩

/-- Only a side that has completed its handshake reads and writes. `none` never returns, or is a
handshake that fails. -/
def step (c : Connection crypto) : ConnectionOp → Option (Connection crypto)
  | .receive side fragmentation =>
    let inbound := c.inbound side
    if (c.socket side).initialized then some c
    else
      let (_, handShakeIV, r) := ({ left := inbound.inFlight } : Receiver).readFull fragmentation 16
      let (_, vFirstLoad, r) := r.readFull fragmentation 112
      ((c.socket side).receive handShakeIV vFirstLoad).map fun socket =>
        { c with
          socket := Function.update c.socket side socket
          inbound := Function.update c.inbound side { inbound with inFlight := r.left } }
  | .write side data sent =>
    if ¬(c.socket side).initialized then some c
    else
      ((c.socket side).partialWrite data sent).map fun (transmitted, socket) =>
        let outbound := c.inbound side.other
        { c with
          socket := Function.update c.socket side socket
          inbound := Function.update c.inbound side.other
            { outbound with
              inFlight := outbound.inFlight ++ transmitted
              written := outbound.written ++ data.take transmitted.length } }
  | .read side received =>
    if ¬(c.socket side).initialized then some c
    else
      let inbound := c.inbound side
      ((c.socket side).partialRead (inbound.inFlight.take received)).map fun (data, socket) =>
        { c with
          socket := Function.update c.socket side socket
          inbound := Function.update c.inbound side
            { inbound with inFlight := inbound.inFlight.drop received, read := inbound.read ++ data } }

/-- `none` where a step never returns or a handshake fails. -/
def run (c : Connection crypto) : List ConnectionOp → Option (Connection crypto)
  | [] => some c
  | op :: rest => (c.step op).bind fun c => run c rest

end Connection

end

end Mantids.Network
