import Mantids.Library.Runs
import Mantids.Library.Table
import Mantids.Memory.Chunk

/-! The acceptor with a thread for each client (`acceptor_multithreaded.cpp`), each step a
section under `mutex_clients`. -/

set_option autoImplicit false

namespace Mantids.Network

open Library Memory

/-- A client's object, known by its address. -/
structure SAThread where
  address : Nat
  remotePair : Bytes
  deriving DecidableEq

structure MultiThreaded where
  maxConnectionsPerIP : Fin (2 ^ 32)
  maxConcurrentClients : Fin (2 ^ 32)
  finalized : Bool
  threadList : List SAThread
  connectionsPerIP : Table Bytes Nat
  /-- The clients in `cond_clients_notfull.wait_for`. -/
  waiting : List SAThread
  /-- `decrementIPUsage` has thrown. -/
  thrown : Bool

inductive MultiThreadedOp where
  | processClient (client : SAThread)
  /-- A waiting client has the lock again: its time is over, or it was notified or not. -/
  | wakes (address : Nat) (timeout : Bool)
  | finalizeThreadElement (address : Nat)
  | setMaxConnectionsPerIP (value : Fin (2 ^ 32))
  | setMaxConcurrentClients (value : Fin (2 ^ 32))
  /-- In the destructor. -/
  | finalize

namespace MultiThreaded

def new (maxConnectionsPerIP maxConcurrentClients : Fin (2 ^ 32)) : MultiThreaded where
  maxConnectionsPerIP := maxConnectionsPerIP
  maxConcurrentClients := maxConcurrentClients
  finalized := false
  threadList := []
  connectionsPerIP := ∅
  waiting := []
  thrown := false

/-- The limits of `init`. -/
def init : MultiThreaded := new 16 4096

def incrementIPUsage (connectionsPerIP : Table Bytes Nat) (ipAddr : Bytes) : Nat × Table Bytes Nat :=
  match connectionsPerIP.get ipAddr with
  | none => (1, connectionsPerIP.insert ipAddr 1)
  | some used =>
    if used ≠ 2 ^ 32 - 1 then (used + 1, connectionsPerIP.insert ipAddr (used + 1)) else (used, connectionsPerIP)

/-- It throws for an address that has no entry. -/
def decrementIPUsage (connectionsPerIP : Table Bytes Nat) (ipAddr : Bytes) : Option (Table Bytes Nat) :=
  match connectionsPerIP.get ipAddr with
  | none => none
  | some 1 => some (connectionsPerIP.erase ipAddr)
  | some used => some (connectionsPerIP.insert ipAddr ((used + (2 ^ 32 - 1)) % 2 ^ 32))

def decremented (s : MultiThreaded) (ipAddr : Bytes) : MultiThreaded :=
  match decrementIPUsage s.connectionsPerIP ipAddr with
  | none => { s with thrown := true }
  | some connectionsPerIP => { s with connectionsPerIP }

/-- What `processClient` does after its wait. -/
def introduce (s : MultiThreaded) (client : SAThread) : MultiThreaded :=
  if s.finalized then s
  else
    let (used, connectionsPerIP) := incrementIPUsage s.connectionsPerIP client.remotePair
    let s := { s with connectionsPerIP }
    if s.maxConnectionsPerIP < used then s.decremented client.remotePair
    else { s with threadList := s.threadList ++ [client] }

def processClient (s : MultiThreaded) (client : SAThread) : MultiThreaded :=
  if s.maxConcurrentClients ≤ s.threadList.length ∧ ¬s.finalized then { s with waiting := client :: s.waiting }
  else s.introduce client

def wakes (s : MultiThreaded) (address : Nat) (timeout : Bool) : MultiThreaded :=
  match s.waiting.find? (·.address = address) with
  | none => s
  | some client =>
    let s := { s with waiting := s.waiting.filter (·.address ≠ address) }
    if timeout then s else s.processClient client

def finalizeThreadElement (s : MultiThreaded) (address : Nat) : MultiThreaded :=
  match s.threadList.find? (·.address = address) with
  | none => s
  | some x => { s with threadList := s.threadList.filter (·.address ≠ address) }.decremented x.remotePair

/-- The addresses of the objects there are. -/
def live (s : MultiThreaded) : List Nat := (s.threadList ++ s.waiting).map (·.address)

/-- A new client's object has an address of its own. -/
def step (s : MultiThreaded) : MultiThreadedOp → MultiThreaded
  | .processClient client => if client.address ∈ s.live then s else s.processClient client
  | .wakes address timeout => s.wakes address timeout
  | .finalizeThreadElement address => s.finalizeThreadElement address
  | .setMaxConnectionsPerIP value => { s with maxConnectionsPerIP := value }
  | .setMaxConcurrentClients value => { s with maxConcurrentClients := value }
  | .finalize => { s with finalized := true }

end MultiThreaded

end Mantids.Network
