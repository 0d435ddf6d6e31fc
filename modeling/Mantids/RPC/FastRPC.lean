import Mantids.Library.Runs
import Mantids.Library.Table

/-! One connection of the fast RPC (`fastrpc.cpp`): the callers of `runRemoteRPCMethod`
and the receiving thread, each step a section under a mutex of the connection. -/

set_option autoImplicit false

namespace Mantids.RPC

open Library

/-- What a caller finds in `error`. -/
structure RPCError where
  succeed : Bool
  errorId : Option Nat
  errorMessage : Option String
  deriving DecidableEq

structure Answer (J : Type) where
  executionStatus : UInt8
  value : J
  deriving DecidableEq

structure Result (J : Type) where
  value : Option J
  error : RPCError
  deriving DecidableEq

/-- Where a caller is in `runRemoteRPCMethod`. -/
inductive Phase (J : Type) where
  /-- With a request identifier that is not yet pending. -/
  | numbered
  | sending
  /-- At the head of the loop, without the mutex. -/
  | looping
  /-- In `cvAnswers.wait_for`: notified in it or not, and begun too late for the notification
  of an answer that is there or of the end of the connection, or not. -/
  | waiting (notified late : Bool)
  /-- In `cvAnswers.wait_for`, past its deadline. -/
  | expired
  /-- Out of the loop, with its entries still there. -/
  | leaving (result : Result J)
  | returned (result : Result J)
  deriving DecidableEq

structure Caller (J : Type) where
  requestId : Nat
  phase : Phase J
  /-- The answer that was last stored before the caller's timeout. -/
  promised : Option (Answer J)
  /-- The connection was marked terminated before the caller's timeout. -/
  cut : Bool
  deriving DecidableEq

structure FastRPCConnection (J : Type) where
  requestIdCounter : Nat
  pendingRequests : List Nat
  answers : Table Nat J
  executionStatus : Table Nat UInt8
  /-- The loop of `processConnection` goes on. -/
  reading : Bool
  terminated : Bool
  /-- The notification that follows `terminated` is out. -/
  announced : Bool
  callers : List (Caller J)

inductive FastRPCOp where
  | openCall
  | register (call : Nat)
  | send (call : Nat)
  | wait (call : Nat)
  /-- The time of the wait is over before the caller is out of it. -/
  | deadline (call : Nat)
  /-- `wait_for` returns, notified or not. -/
  | wake (call : Nat)
  | cleanUp (call : Nat)
  /-- Without a payload when none could be read. -/
  | processAnswer (requestId : Nat) (executionStatus : UInt8) (payload : Option String)
  /-- A remote shutdown, a broken query or an invalid protocol. -/
  | stopReading
  | terminate
  | announce

section
variable {J : Type}

namespace Result

def timedOut : Result J := ⟨none, ⟨false, some 3, some "Remote Execution Timed Out: No Answer Received."⟩⟩

def terminated : Result J := ⟨none, ⟨false, some 6, some "Connection is terminated: No Answer Received."⟩⟩

def answered (answer : Answer J) : Result J where
  value := some answer.value
  error :=
    if answer.executionStatus = 2 then ⟨true, some 0, some "Execution OK."⟩
    else if answer.executionStatus = 3 then ⟨false, some 4, some "Remote Execution Failed: Full Queue."⟩
    else if answer.executionStatus = 4 then ⟨false, some 5, some "Remote Execution Failed: Method Not Found."⟩
    else ⟨false, none, none⟩

end Result

/-- Before its timeout, and before it has left the loop. -/
def Caller.undecided (caller : Caller J) : Bool :=
  match caller.phase with
  | .expired | .leaving _ | .returned _ => false
  | _ => true

/-- Its request identifier is in use. -/
def Caller.current (caller : Caller J) : Bool :=
  match caller.phase with
  | .returned _ => false
  | _ => true

def Caller.notify (caller : Caller J) : Caller J :=
  match caller.phase with
  | .waiting _ late => { caller with phase := .waiting true late }
  | _ => caller

namespace FastRPCConnection

def new : FastRPCConnection J where
  requestIdCounter := 1
  pendingRequests := []
  answers := ∅
  executionStatus := ∅
  reading := true
  terminated := false
  announced := false
  callers := []

/-- The answer that a caller with the identifier would take. -/
def stored (s : FastRPCConnection J) (requestId : Nat) : Option (Answer J) :=
  (s.answers.get requestId).map fun value => ⟨(s.executionStatus.get requestId).getD 0, value⟩

def move (s : FastRPCConnection J) (call : Nat) (phase : Phase J) : FastRPCConnection J :=
  { s with callers := s.callers.modify call fun caller => { caller with phase := phase } }

def notifyAll (s : FastRPCConnection J) : FastRPCConnection J :=
  { s with callers := s.callers.map Caller.notify }

/-- The entries of the identifier are erased from `answers`, `executionStatus` and `pendingRequests`. -/
def forget (s : FastRPCConnection J) (requestId : Nat) : FastRPCConnection J :=
  { s with
    answers := s.answers.erase requestId
    executionStatus := s.executionStatus.erase requestId
    pendingRequests := s.pendingRequests.filter (· ≠ requestId) }

/-- `requestIdCounter` is a `uint64_t`. -/
def openCall (s : FastRPCConnection J) : FastRPCConnection J :=
  { s with
    requestIdCounter := (s.requestIdCounter + 1) % 2 ^ 64
    callers := s.callers ++ [⟨s.requestIdCounter, .numbered, none, s.terminated⟩] }

/-- What a caller does that is inside `wait_for` no longer: the timeout ends the loop before anything is looked at. -/
def wake (s : FastRPCConnection J) (call : Nat) (caller : Caller J) : FastRPCConnection J :=
  match caller.phase with
  | .expired => s.move call (.leaving .timedOut)
  | .waiting _ _ =>
    match s.stored caller.requestId with
    | some answer => s.move call (.leaving (.answered answer))
    | none => s.move call (if s.terminated then .leaving .terminated else .looping)
  | _ => s

/-- A step of one caller. -/
def advance (s : FastRPCConnection J) (call : Nat) (caller : Caller J) : FastRPCOp → FastRPCConnection J
  | .register _ =>
    match caller.phase with
    | .numbered => { s.move call .sending with pendingRequests := caller.requestId :: s.pendingRequests }
    | _ => s
  | .send _ =>
    match caller.phase with
    | .sending => s.move call .looping
    | _ => s
  | .wait _ =>
    match caller.phase with
    | .looping => s.move call (.waiting false ((s.stored caller.requestId).isSome || s.announced))
    | _ => s
  | .deadline _ =>
    match caller.phase with
    | .waiting _ _ => s.move call .expired
    | _ => s
  | .wake _ => s.wake call caller
  | .cleanUp _ =>
    match caller.phase with
    | .leaving result => (s.move call (.returned result)).forget caller.requestId
    | _ => s
  | _ => s

/-- The answer goes into the maps, and everyone that waits is notified. -/
def store (s : FastRPCConnection J) (requestId : Nat) (answer : Answer J) : FastRPCConnection J :=
  notifyAll
    { s with
      answers := s.answers.insert requestId answer.value
      executionStatus := s.executionStatus.insert requestId answer.executionStatus
      callers := s.callers.map fun caller =>
        if caller.requestId = requestId ∧ caller.undecided then { caller with promised := some answer } else caller }

def processAnswer (parse : String → Option J) (s : FastRPCConnection J) (requestId : Nat) (executionStatus : UInt8)
    (payload : Option String) : FastRPCConnection J :=
  if requestId = 0 then { s with reading := false }
  else
    match payload with
    | none => { s with reading := false }
    | some payloadBytes =>
      if requestId ∈ s.pendingRequests then
        match parse payloadBytes with
        | some value => s.store requestId ⟨executionStatus, value⟩
        | none => s.forget requestId
      else s

def step (parse : String → Option J) (s : FastRPCConnection J) (op : FastRPCOp) : FastRPCConnection J :=
  match op with
  | .openCall => s.openCall
  | .register call | .send call | .wait call | .deadline call | .wake call | .cleanUp call =>
    match s.callers[call]? with
    | some caller => s.advance call caller op
    | none => s
  | .processAnswer requestId executionStatus payload =>
    if s.reading then s.processAnswer parse requestId executionStatus payload else s
  | .stopReading => { s with reading := false }
  | .terminate =>
    if s.reading then s
    else
      { s with
        terminated := true
        callers := s.callers.map fun caller => if caller.undecided then { caller with cut := true } else caller }
  | .announce => if s.terminated then { s.notifyAll with announced := true } else s

end FastRPCConnection

end

end Mantids.RPC
