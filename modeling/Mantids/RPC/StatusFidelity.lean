import Mantids.Network.StreamFraming
import Mantids.RPC.FastRPCAnswers

/-! The answers of a fast RPC peer on their way to the caller: the outcome of a query, the message of it
and the error code that the call returns. -/

set_option autoImplicit false

namespace Mantids.RPC

open Library Memory Network

/-! ## The answering side -/

/-- What both sides use of the JSON library. -/
structure JsonText (J : Type) where
  null : J
  writeString : J → Bytes
  parse : String → Option J

/-- The methods by name, as functions of the payload, and the size that is set. -/
structure Peer (J : Type) where
  methods : String → Option (J → J)
  maxMessageSize : UInt32

structure Query (J : Type) where
  requestId : UInt64
  methodName : String
  payload : J

namespace Peer

section
variable {J : Type} (json : JsonText J) (peer : Peer J) (fragmentation : Fragmentation)

def runLocalRPCMethod (methodName : String) (payload : J) : J × Bool :=
  match peer.methods methodName with
  | some rpcMethod => (rpcMethod payload, true)
  | none => (json.null, false)

/-- `'A'`, the request, the status and the text, each if the one before was written. -/
def sendRPCAnswer (requestId : UInt64) (answer : Bytes) (execution : UInt8) (s : Sender) : Sender :=
  match s.writeU fragmentation .u8 65 with
  | (false, s) => s
  | (true, s) =>
    match s.writeU fragmentation .u64 requestId.toNat with
    | (false, s) => s
    | (true, s) =>
      match s.writeU fragmentation .u8 execution.toNat with
      | (false, s) => s
      | (true, s) =>
        (s.writeStringEx fragmentation .u32 (if answer.length ≤ peer.maxMessageSize.toNat then answer else [])
          peer.maxMessageSize.toNat).2

def executeRPCTask (query : Query J) (s : Sender) : Sender :=
  let r := peer.runLocalRPCMethod json query.methodName query.payload
  peer.sendRPCAnswer fragmentation query.requestId (json.writeString r.1) (if r.2 then 2 else 4) s

/-- What is sent back for a query, which the task queue takes or not. -/
def processQuery (pushed : Bool) (query : Query J) (s : Sender) : Sender :=
  if pushed then peer.executeRPCTask json fragmentation query s
  else peer.sendRPCAnswer fragmentation query.requestId [] 3 s

end

end Peer

/-! ## The receiving side -/

/-- The payload is read as far as its first zero byte. -/
def cString (payloadBytes : Bytes) : String :=
  .ofList ((payloadBytes.takeWhile (· ≠ 0)).map fun byte => Char.ofNat byte.toNat)

section
variable (fragmentation : Fragmentation) (maxMessageSize : UInt32)

/-- Nothing where the payload overruns its memory. -/
def readAnswer (r : Receiver) : Option FastRPCOp × Receiver :=
  match r.readU fragmentation .u64 with
  | (none, r) | (some 0, r) => (some (.processAnswer 0 0 none), r)
  | (some requestId, r) =>
    let status := r.readU fragmentation .u8
    let executionStatus := UInt8.ofNat (status.1.getD 0)
    match status.2.readBlockWAllocEx fragmentation .u32 (some maxMessageSize.toNat) with
    | (.block payloadBytes, r) => (some (.processAnswer requestId executionStatus (some (cString payloadBytes))), r)
    | (.failed, r) => (some (.processAnswer requestId executionStatus none), r)
    | (.overflows, r) => (none, r)

/-- One turn of `processConnection`, as far as it is no query. -/
def readMessage (r : Receiver) : Option FastRPCOp × Receiver :=
  match r.readU fragmentation .u8 with
  | (some 65, r) => readAnswer fragmentation maxMessageSize r
  | (some 81, r) => (none, r)
  | (_, r) => (some .stopReading, r)

end

/-! ## What the call must return -/

section
variable {J : Type}

/-- The error code of the outcome, with the value that was produced. -/
def Reports (json : JsonText J) (peer : Peer J) (pushed : Bool) (query : Query J) (result : Result J) : Prop :=
  if pushed then
    match peer.methods query.methodName with
    | some rpcMethod => result.error.errorId = some 0 ∧ result.value = some (rpcMethod query.payload)
    | none => result.error.errorId = some 5 ∧ result.value = some json.null
  else result.error.errorId = some 4

def FastRPCOp.answers (requestId : Nat) : FastRPCOp → Bool
  | .processAnswer answered _ _ => answered = requestId
  | _ => false

namespace FastRPCConnection

/-- After the answer: the call that waits is over when it wakes up, and whatever is returned in a run that is on time
and brings no second answer reports the outcome. -/
structure Told (json : JsonText J) (reports : Result J → Prop) (s : FastRPCConnection J) (op : FastRPCOp) (call : Nat)
    (caller : Caller J) : Prop where
  returns : ∀ notified late, caller.phase = .waiting notified late →
    ∃ woken result, ((s.step json.parse op).step json.parse (.wake call)).callers[call]? = some woken ∧
      woken.result = some result
  reported : ∀ later : List FastRPCOp, Along (step json.parse) (OnTime json.parse) s (op :: later) →
    (∀ next ∈ later, next.answers caller.requestId = false) →
      ∀ after, (reached (step json.parse) s (op :: later)).callers[call]? = some after →
        ∀ result, after.result = some result → reports result

end FastRPCConnection

/-- Whoever asks, in whatever state of the connection, and however the bytes are cut. A peer handles no query with the
identifier 0. -/
def Faithful (json : JsonText J) (peer : Peer J) (maxMessageSize : UInt32) (pushed : Bool) (methodName : String)
    (payload : J) : Prop :=
  ∀ (sends receives : Fragmentation) (before : List FastRPCOp) (call : Nat) (caller : Caller J) (requestId : UInt64)
    (r : Receiver) (rest : Bytes),
    let s := reached (FastRPCConnection.step json.parse) .new before
    let query : Query J := ⟨requestId, methodName, payload⟩
    Along (FastRPCConnection.step json.parse) (FastRPCConnection.OnTime json.parse) .new before →
    s.reading = true → s.callers[call]? = some caller → caller.undecided = true →
    caller.requestId = requestId.toNat → requestId ≠ 0 → caller.requestId ∈ s.pendingRequests →
    r.shut = false → r.left = (peer.processQuery json sends pushed query {}).sent ++ rest →
    ∃ op, (readMessage receives maxMessageSize r).1 = some op ∧
      s.Told json (Reports json peer pushed query) op call caller

/-- The text of what is returned, when it is executed, goes through both limits and is read back as it was. -/
def Survives (json : JsonText J) (peer : Peer J) (maxMessageSize : UInt32) (pushed : Bool) (methodName : String)
    (payload : J) : Prop :=
  let value := (peer.runLocalRPCMethod json methodName payload).1
  let text := json.writeString value
  pushed = true ∧ text.length ≤ peer.maxMessageSize.toNat ∧ text.length ≤ maxMessageSize.toNat ∧
    text.length + 1 < 2 ^ 32 ∧ json.parse (cString text) = some value

instance [DecidableEq J] (json : JsonText J) (peer : Peer J) (maxMessageSize : UInt32) (pushed : Bool)
    (methodName : String) (payload : J) : Decidable (Survives json peer maxMessageSize pushed methodName payload) :=
  inferInstanceAs (Decidable (_ ∧ _))

/-! ## The message -/

section
variable (json : JsonText J) (peer : Peer J) (fragmentation : Fragmentation)

def sentText (peer : Peer J) (answer : Bytes) : Bytes := if answer.length ≤ peer.maxMessageSize.toNat then answer else []

theorem length_sentText (answer : Bytes) : (sentText peer answer).length ≤ peer.maxMessageSize.toNat := by
  unfold sentText
  split
  · rename_i fits
    exact fits
  · exact Nat.zero_le _

theorem sendRPCAnswer_sent (requestId : UInt64) (answer : Bytes) (execution : UInt8) :
    (peer.sendRPCAnswer fragmentation requestId answer execution {}).sent =
      networkOrder 1 65 ++ (networkOrder 8 requestId.toNat ++ (networkOrder 1 execution.toNat ++
        (networkOrder 4 (sentText peer answer).length ++ sentText peer answer))) := by
  obtain ⟨s₁, first, sent₁, live₁⟩ := Sender.writeU_sent fragmentation (rfl : ({} : Sender).shut = false) .u8 65
  obtain ⟨s₂, second, sent₂, live₂⟩ := Sender.writeU_sent fragmentation live₁ .u64 requestId.toNat
  obtain ⟨s₃, third, sent₃, live₃⟩ := Sender.writeU_sent fragmentation live₂ .u8 execution.toNat
  have fits := length_sentText peer answer
  have word : (sentText peer answer).length % Width.u32.values = (sentText peer answer).length :=
    Nat.mod_eq_of_lt (Nat.lt_of_le_of_lt fits peer.maxMessageSize.toNat_lt)
  obtain ⟨s₄, fourth, sent₄, live₄⟩ :=
    Sender.writeBlockEx_sent fragmentation live₃ .u32 (sentText peer answer) (sentText peer answer).length
  unfold Peer.sendRPCAnswer
  rw [first]
  dsimp only
  rw [second]
  dsimp only
  rw [third]
  change (s₃.writeStringEx fragmentation .u32 (sentText peer answer) peer.maxMessageSize.toNat).2.sent = _
  rw [Sender.writeStringEx, if_neg (Nat.not_lt.mpr fits), word, fourth]
  dsimp only
  rw [sent₄, sent₃, sent₂, sent₁, List.take_length]
  simp [Width.bytes]

/-- What the reading of an answer comes to, by the length of its text. -/
theorem readMessage_answer {maxMessageSize : UInt32} {requestId : UInt64} (handled : requestId ≠ 0)
    {execution : UInt8} {text : Bytes} (short : text.length < 2 ^ 32) {r : Receiver} (live : r.shut = false)
    {rest : Bytes} (left : r.left = networkOrder 1 65 ++ (networkOrder 8 requestId.toNat ++
      (networkOrder 1 execution.toNat ++ (networkOrder 4 text.length ++ text))) ++ rest) :
    (readMessage fragmentation maxMessageSize r).1 =
      if maxMessageSize.toNat < text.length then some (.processAnswer requestId.toNat execution none)
      else if text.length + 1 < 2 ^ 32 then some (.processAnswer requestId.toNat execution (some (cString text)))
      else none := by
  simp only [List.append_assoc] at left
  obtain ⟨r₁, first, left₁, live₁⟩ := Receiver.readU_value fragmentation live (by decide : 65 < Width.u8.values) left
  obtain ⟨r₂, second, left₂, live₂⟩ := @Receiver.readU_value fragmentation r₁ live₁ .u64 requestId.toNat requestId.toNat_lt _ left₁
  obtain ⟨r₃, third, left₃, live₃⟩ :=
    @Receiver.readU_value fragmentation r₂ live₂ .u8 execution.toNat execution.toNat_lt _ left₂
  have answer : (readMessage fragmentation maxMessageSize r).1 =
      match (r₃.readBlockWAllocEx fragmentation .u32 (some maxMessageSize.toNat)).1 with
      | .block payloadBytes => some (.processAnswer requestId.toNat execution (some (cString payloadBytes)))
      | .failed => some (.processAnswer requestId.toNat execution none)
      | .overflows => none := by
    have nonzero : requestId.toNat ≠ 0 := fun zero => handled (UInt64.toNat_inj.mp zero)
    generalize requestId.toNat = requestId at second nonzero
    cases requestId with
    | zero => contradiction
    | succ earlier =>
      rw [readMessage, first]
      simp only [readAnswer, second, third]
      rw [Option.getD_some, UInt8.ofNat_toNat]
      generalize r₃.readBlockWAllocEx fragmentation .u32 (some maxMessageSize.toNat) = payload
      obtain ⟨payload, r₄⟩ := payload
      cases payload <;> rfl
  rw [answer]
  split_ifs with long memory
  · obtain ⟨r₄, fourth, -, -⟩ := @Receiver.readU_value fragmentation r₃ live₃ .u32 text.length short _ left₃
    rw [Receiver.readBlockWAllocEx, fourth]
    dsimp only
    rw [if_pos (by simpa using long)]
  · have room : text.length ≤ Width.u32.sizePlusOne text.length := by
      change text.length ≤ (text.length + 1) % 2 ^ 32
      rw [Nat.mod_eq_of_lt memory]
      exact Nat.le_succ _
    obtain ⟨r₄, payload, -, -⟩ := @Receiver.readBlockWAllocEx_block fragmentation r₃ live₃ .u32 text rest short left₃
      (some maxMessageSize.toNat) (by simpa using long) room
    rw [payload]
  · obtain ⟨r₄, fourth, -, -⟩ := @Receiver.readU_value fragmentation r₃ live₃ .u32 text.length short _ left₃
    have last : text.length = 2 ^ 32 - 1 := by omega
    rw [Receiver.readBlockWAllocEx, fourth]
    dsimp only
    rw [if_neg (by simpa using long), if_neg (by omega), if_pos]
    rw [last]
    decide

end

/-! ## What becomes of a caller -/

namespace FastRPCConnection

variable {parse : String → Option J} {s : FastRPCConnection J}

/-- Every caller keeps its identifier, and its promise unless an answer with the identifier comes. -/
def Continues (op : FastRPCOp) (callers next : List (Caller J)) : Prop :=
  ∀ (call : Nat) (caller : Caller J), callers[call]? = some caller → ∃ after : Caller J, next[call]? = some after ∧
    after.requestId = caller.requestId ∧ (op.answers caller.requestId = false → after.promised = caller.promised)

theorem continues_refl (op : FastRPCOp) (callers : List (Caller J)) : Continues op callers callers :=
  fun _ caller found => ⟨caller, found, rfl, fun _ => rfl⟩

theorem continues_map {op : FastRPCOp} (f : Caller J → Caller J) (callers : List (Caller J))
    (id : ∀ caller, (f caller).requestId = caller.requestId)
    (promised : ∀ caller, op.answers caller.requestId = false → (f caller).promised = caller.promised) :
    Continues op callers (callers.map f) := by
  intro call caller found
  exact ⟨f caller, by rw [List.getElem?_map, found]; rfl, id caller, promised caller⟩

theorem continues_move (s : FastRPCConnection J) (call : Nat) (phase : Phase J) (op : FastRPCOp) :
    Continues op s.callers (s.move call phase).callers := by
  intro other caller found
  refine ⟨_, by rw [getElem?_move, found]; rfl, ?_, fun _ => ?_⟩
  · split <;> rfl
  · split <;> rfl

theorem continues_advance (call : Nat) (caller : Caller J) (op : FastRPCOp) :
    Continues op s.callers (s.advance call caller op).callers := by
  unfold advance
  split
  case h_5 =>
    unfold wake
    split
    · exact continues_move s call _ _
    · split
      · exact continues_move s call _ _
      · exact continues_move s call _ _
    · exact continues_refl _ _
  case h_7 => exact continues_refl _ _
  all_goals
    split
    · exact continues_move s call _ _
    · exact continues_refl _ _

theorem continues_store (requestId : Nat) (executionStatus : UInt8) (payload : Option String) (answer : Answer J) :
    Continues (.processAnswer requestId executionStatus payload) s.callers (s.store requestId answer).callers := by
  unfold store notifyAll
  rw [List.map_map]
  apply continues_map
  · intro caller
    rw [Function.comp_apply, Caller.notify_requestId]
    split <;> rfl
  · intro caller other
    rw [Function.comp_apply, Caller.notify_promised, if_neg]
    rintro ⟨same, -⟩
    exact of_decide_eq_false other same.symm

theorem continues_processAnswer (requestId : Nat) (executionStatus : UInt8) (payload : Option String) :
    Continues (.processAnswer requestId executionStatus payload) s.callers
      (s.processAnswer parse requestId executionStatus payload).callers := by
  unfold processAnswer
  split
  · exact continues_refl _ _
  · split
    · exact continues_refl _ _
    · split
      · split
        · exact continues_store requestId executionStatus _ _
        · exact continues_refl _ _
      · exact continues_refl _ _

theorem continues_step (op : FastRPCOp) : Continues op s.callers (s.step parse op).callers := by
  unfold step
  cases op with
  | openCall =>
    intro call caller found
    obtain ⟨inside, -⟩ := List.getElem?_eq_some_iff.mp found
    exact ⟨caller, (List.getElem?_append_left inside).trans found, rfl, fun _ => rfl⟩
  | processAnswer requestId executionStatus payload =>
    simp only
    split
    · exact continues_processAnswer requestId executionStatus payload
    · exact continues_refl _ _
  | stopReading => exact continues_refl _ _
  | terminate =>
    simp only
    split
    · exact continues_refl _ _
    · apply continues_map
      · intro caller
        split <;> rfl
      · intro caller _
        split <;> rfl
  | announce =>
    simp only
    split
    · exact continues_map Caller.notify s.callers Caller.notify_requestId fun caller _ => caller.notify_promised
    · exact continues_refl _ _
  | register call | send call | wait call | deadline call | wake call | cleanUp call =>
    simp only
    split
    · exact continues_advance call _ _
    · exact continues_refl _ _

/-- A promise lasts where no second answer comes. -/
theorem promised_run (later : List FastRPCOp) {call : Nat} {caller : Caller J} (found : s.callers[call]? = some caller)
    (once : ∀ next ∈ later, next.answers caller.requestId = false) :
    ∃ after, (reached (step parse) s later).callers[call]? = some after ∧ after.promised = caller.promised := by
  induction later generalizing s caller with
  | nil => exact ⟨caller, found, rfl⟩
  | cons op later ih =>
    obtain ⟨after, found', id, kept⟩ := @continues_step J parse s op call caller found
    have once' : ∀ next ∈ later, next.answers after.requestId = false := fun next member => by
      rw [id]
      exact once next (List.mem_cons_of_mem op member)
    obtain ⟨last, at_end, promised⟩ := ih found' once'
    exact ⟨last, at_end, promised.trans (kept (once op List.mem_cons_self))⟩

/-! ## An answer that is read -/

theorem sound_reached {run : List FastRPCOp} (sound : s.Sound) (onTime : Along (step parse) (OnTime parse) s run) :
    (reached (step parse) s run).Sound :=
  along_visited Sound (fun _ _ before allowed => before.step allowed) s run sound onTime _ (reached_visited _ _ _)

/-- A caller whose answer has come. -/
def promise (caller : Caller J) (answer : Answer J) : Caller J := ({ caller with promised := some answer } : Caller J).notify

theorem store_found {requestId : Nat} {call : Nat} {caller : Caller J} (found : s.callers[call]? = some caller)
    (undecided : caller.undecided = true) (own : caller.requestId = requestId) (answer : Answer J) :
    (s.store requestId answer).callers[call]? = some (promise caller answer) := by
  have kept : (if caller.requestId = requestId ∧ caller.undecided then { caller with promised := some answer }
      else caller) = { caller with promised := some answer } := if_pos ⟨own, undecided⟩
  unfold store notifyAll
  rw [List.map_map, List.getElem?_map, found, Option.map_some, Function.comp_apply, kept]
  rfl

/-- A caller that wakes up with its answer there leaves with it. -/
theorem wake_stored {call : Nat} {caller : Caller J} {answer : Answer J} {notified late : Bool}
    (found : s.callers[call]? = some caller) (waits : caller.phase = .waiting notified late)
    (stored : s.stored caller.requestId = some answer) :
    (s.step parse (.wake call)).callers[call]? = some { caller with phase := .leaving (.answered answer) } := by
  simp only [step, found, advance, wake, waits, stored]
  exact move_found found _

section
variable {json : JsonText J} {reports : Result J → Prop} {call : Nat} {caller : Caller J}
  {executionStatus : UInt8} {payloadBytes : String} {value : J}

theorem told_of_parse (sound : s.Sound) (reading : s.reading = true) (found : s.callers[call]? = some caller)
    (undecided : caller.undecided = true) (handled : caller.requestId ≠ 0) (pending : caller.requestId ∈ s.pendingRequests)
    (parsed : json.parse payloadBytes = some value) (right : reports (.answered ⟨executionStatus, value⟩)) :
    s.Told json reports (.processAnswer caller.requestId executionStatus (some payloadBytes)) call caller := by
  have stores : s.step json.parse (.processAnswer caller.requestId executionStatus (some payloadBytes)) =
      s.store caller.requestId ⟨executionStatus, value⟩ := by
    simp only [step, processAnswer, reading, handled, pending, parsed, if_true, if_false]
  have found' := store_found found undecided rfl ⟨executionStatus, value⟩
  have id : (promise caller ⟨executionStatus, value⟩).requestId = caller.requestId := Caller.notify_requestId _
  constructor
  case returns =>
    intro notified late waits
    have waits' : (promise caller ⟨executionStatus, value⟩).phase = .waiting true late := by
      simp only [promise, Caller.notify, waits]
    have stored : (s.store caller.requestId ⟨executionStatus, value⟩).stored
        (promise caller ⟨executionStatus, value⟩).requestId = some ⟨executionStatus, value⟩ := by
      rw [id, stored_store, if_pos rfl]
    rw [stores]
    exact ⟨_, _, wake_stored found' waits' stored, rfl⟩
  case reported =>
    intro later onTime once after at_end result resolved
    have next : (s.step json.parse (.processAnswer caller.requestId executionStatus (some payloadBytes))).callers[call]? =
        some (promise caller ⟨executionStatus, value⟩) := by rw [stores, found']
    rw [← id] at once
    obtain ⟨last, at_end', promised⟩ := promised_run later next once
    cases at_end.symm.trans at_end'
    have kept := ((sound_reached sound onTime).callers call after at_end).kept result resolved
    rw [kept.1 _ (promised.trans (Caller.notify_promised _))]
    exact right

/-! ## An answer that is not -/

/-- One caller, whose query has been sent and who waits. -/
def oneWaiting : FastRPCConnection J :=
  reached (step fun _ => none) new [.openCall, .register 0, .send 0, .wait 0]

def theCaller : Caller J := ⟨1, .waiting false false, none, false⟩

theorem reading_oneWaiting : (oneWaiting : FastRPCConnection J).reading = true := rfl

theorem pending_oneWaiting : 1 ∈ (oneWaiting : FastRPCConnection J).pendingRequests := List.mem_singleton.mpr rfl

theorem timesOut (alone : s.callers = [theCaller]) :
    (reached (step parse) s [.deadline 0, .wake 0]).callers[0]? = some { theCaller with phase := .leaving .timedOut } := by
  obtain ⟨requestIdCounter, pendingRequests, answers, status, reading, terminated, announced, callers⟩ := s
  cases alone
  rfl

theorem onTime_deadline (alone : s.callers = [theCaller]) (up : s.terminated = false) :
    Along (step parse) (OnTime parse) s [.deadline 0, .wake 0] := by
  refine ⟨?_, trivial, trivial⟩
  intro caller found notified late waits
  rw [alone] at found
  cases found
  cases waits
  exact ⟨rfl, nofun, fun terminated => nomatch up.symm.trans terminated⟩

/-- Nothing is stored for it, and its deadline passes. -/
theorem not_told_of_unreadable {payload : Option String} (unreadable : ∀ payloadBytes ∈ payload, json.parse payloadBytes = none)
    (wrong : ¬reports .timedOut) :
    ¬oneWaiting.Told json reports (.processAnswer 1 executionStatus payload) 0 theCaller := by
  intro told
  have dropped : ∃ next : FastRPCConnection J, oneWaiting.step json.parse (.processAnswer 1 executionStatus payload) = next ∧
      next.callers = [theCaller] ∧ next.terminated = false := by
    cases payload with
    | none => exact ⟨_, rfl, rfl, rfl⟩
    | some payloadBytes =>
      have forgets : oneWaiting.step json.parse (.processAnswer 1 executionStatus (some payloadBytes)) =
          (oneWaiting : FastRPCConnection J).forget 1 := by
        have unread : json.parse payloadBytes = none := unreadable payloadBytes rfl
        simp [step, processAnswer, reading_oneWaiting, pending_oneWaiting, unread]
      exact ⟨_, forgets, rfl, rfl⟩
  obtain ⟨next, steps, alone, up⟩ := dropped
  have onTime : Along (step json.parse) (OnTime json.parse) oneWaiting
      [.processAnswer 1 executionStatus payload, .deadline 0, .wake 0] := by
    refine ⟨fun _ _ _ _ _ _ _ => rfl, ?_⟩
    rw [steps]
    exact onTime_deadline alone up
  have ends : (reached (step json.parse) oneWaiting
      [.processAnswer 1 executionStatus payload, .deadline 0, .wake 0]).callers[0]? =
      some { theCaller with phase := .leaving .timedOut } := by
    rw [reached, steps]
    exact timesOut alone
  exact wrong (told.reported _ onTime (by simp [FastRPCOp.answers]) _ ends _ rfl)

theorem reports_of_told (parsed : json.parse payloadBytes = some value)
    (told : oneWaiting.Told json reports (.processAnswer 1 executionStatus (some payloadBytes)) 0 theCaller) :
    reports (.answered ⟨executionStatus, value⟩) := by
  have stores : oneWaiting.step json.parse (.processAnswer 1 executionStatus (some payloadBytes)) =
      (oneWaiting : FastRPCConnection J).store 1 ⟨executionStatus, value⟩ := by
    simp [step, processAnswer, reading_oneWaiting, pending_oneWaiting, parsed]
  have ends : (reached (step json.parse) oneWaiting
      [.processAnswer 1 executionStatus (some payloadBytes), .wake 0]).callers[0]? =
      some { promise theCaller ⟨executionStatus, value⟩ with phase := .leaving (.answered ⟨executionStatus, value⟩) } := by
    rw [reached, stores]
    exact @wake_stored J json.parse _ 0 (promise theCaller ⟨executionStatus, value⟩) ⟨executionStatus, value⟩ true false
      rfl rfl ((stored_store oneWaiting 1 1 _).trans (if_pos rfl))
  exact told.reported [.wake 0] ⟨fun _ _ _ _ _ _ _ => rfl, trivial, trivial⟩ (by simp [FastRPCOp.answers]) _ ends _ rfl

end

end FastRPCConnection

/-! ## Every outcome -/

section
variable {json : JsonText J} {peer : Peer J} {maxMessageSize : UInt32} {pushed : Bool} {methodName : String} {payload : J}

def answerText (json : JsonText J) (peer : Peer J) (pushed : Bool) (methodName : String) (payload : J) : Bytes :=
  if pushed then sentText peer (json.writeString (peer.runLocalRPCMethod json methodName payload).1) else []

def answerStatus (json : JsonText J) (peer : Peer J) (pushed : Bool) (methodName : String) (payload : J) : UInt8 :=
  if pushed then if (peer.runLocalRPCMethod json methodName payload).2 then 2 else 4 else 3

theorem processQuery_sent (fragmentation : Fragmentation) (requestId : UInt64) :
    (peer.processQuery json fragmentation pushed ⟨requestId, methodName, payload⟩ {}).sent =
      networkOrder 1 65 ++ (networkOrder 8 requestId.toNat ++
        (networkOrder 1 (answerStatus json peer pushed methodName payload).toNat ++
          (networkOrder 4 (answerText json peer pushed methodName payload).length ++
            answerText json peer pushed methodName payload))) := by
  cases pushed with
  | true => exact sendRPCAnswer_sent peer fragmentation requestId _ _
  | false =>
    have nothing : sentText peer [] = [] := ite_self _
    have sent := sendRPCAnswer_sent peer fragmentation requestId [] 3
    rw [nothing] at sent
    exact sent

theorem answerText_short : (answerText json peer pushed methodName payload).length < 2 ^ 32 := by
  cases pushed with
  | true => exact Nat.lt_of_le_of_lt (length_sentText peer _) peer.maxMessageSize.toNat_lt
  | false => exact Nat.two_pow_pos 32

/-- The outcome arrives just where its text does. -/
theorem survives_iff_parse (parse_empty : json.parse "" = none) :
    Survives json peer maxMessageSize pushed methodName payload ↔
      (answerText json peer pushed methodName payload).length ≤ maxMessageSize.toNat ∧
        (answerText json peer pushed methodName payload).length + 1 < 2 ^ 32 ∧
        json.parse (cString (answerText json peer pushed methodName payload)) =
          some (peer.runLocalRPCMethod json methodName payload).1 := by
  have unreadable : ∀ value, json.parse (cString []) ≠ some value := fun value read => by
    cases parse_empty.symm.trans read
  unfold Survives answerText
  cases pushed with
  | false => simp [unreadable]
  | true =>
    dsimp only
    generalize json.writeString (peer.runLocalRPCMethod json methodName payload).1 = text
    by_cases fits : text.length ≤ peer.maxMessageSize.toNat
    · simp [sentText, fits]
    · simp [sentText, fits, unreadable]

theorem reports_answered (requestId : UInt64) (value : J) :
    Reports json peer pushed ⟨requestId, methodName, payload⟩
        (.answered ⟨answerStatus json peer pushed methodName payload, value⟩) ↔
      (pushed = true → value = (peer.runLocalRPCMethod json methodName payload).1) := by
  cases pushed with
  | false => simp [Reports, answerStatus, Result.answered]
  | true =>
    unfold Reports answerStatus Peer.runLocalRPCMethod
    cases peer.methods methodName with
    | none => simp [Result.answered]
    | some rpcMethod => simp [Result.answered]

theorem not_reports_timedOut (requestId : UInt64) :
    ¬Reports json peer pushed ⟨requestId, methodName, payload⟩ .timedOut := by
  cases pushed with
  | false => simp [Reports, Result.timedOut]
  | true =>
    unfold Reports
    cases peer.methods methodName <;> simp [Result.timedOut]

theorem faithful_of_survives (parse_empty : json.parse "" = none)
    (survives : Survives json peer maxMessageSize pushed methodName payload) :
    Faithful json peer maxMessageSize pushed methodName payload := by
  obtain ⟨limit, memory, parsed⟩ := (survives_iff_parse parse_empty).mp survives
  intro sends receives before call caller requestId r rest s query onTime reading found undecided own handled pending
    live left
  rw [processQuery_sent] at left
  have read := @readMessage_answer receives maxMessageSize requestId handled _ _ answerText_short r live rest left
  rw [if_neg (Nat.not_lt.mpr limit), if_pos memory, ← own] at read
  refine ⟨_, read, ?_⟩
  have nonzero : caller.requestId ≠ 0 := by
    rw [own]
    exact fun zero => handled (UInt64.toNat_inj.mp zero)
  have sound : s.Sound := FastRPCConnection.sound_reached FastRPCConnection.sound_new onTime
  exact FastRPCConnection.told_of_parse sound reading found undecided nonzero pending parsed
    ((reports_answered requestId _).mpr fun _ => rfl)

theorem survives_of_faithful (parse_empty : json.parse "" = none)
    (faithful : Faithful json peer maxMessageSize pushed methodName payload) :
    Survives json peer maxMessageSize pushed methodName payload := by
  have onTime : Along (FastRPCConnection.step json.parse) (FastRPCConnection.OnTime json.parse) .new
      [.openCall, .register 0, .send 0, .wait 0] :=
    ⟨fun caller none => (List.not_mem_nil none).elim, trivial, trivial, trivial, trivial⟩
  obtain ⟨op, read, told⟩ := faithful (fun _ => 0) (fun _ => 0) [.openCall, .register 0, .send 0, .wait 0] 0
    FastRPCConnection.theCaller 1 ⟨_, 0, false⟩ [] onTime rfl rfl rfl rfl (by decide) (List.mem_singleton.mpr rfl) rfl rfl
  change FastRPCConnection.oneWaiting.Told _ _ _ _ _ at told
  rw [processQuery_sent, @readMessage_answer (fun _ => 0) maxMessageSize 1 (by decide)
    (answerStatus json peer pushed methodName payload) _ answerText_short _ rfl [] rfl] at read
  have wrong := @not_reports_timedOut J json peer pushed methodName payload 1
  -- what is not read leaves the caller to its timeout
  split_ifs at read with long memory
  · cases read
    have unreadable : ∀ payloadBytes ∈ (none : Option String), json.parse payloadBytes = none :=
      fun _ member => (Option.not_mem_none _ member).elim
    exact (FastRPCConnection.not_told_of_unreadable unreadable wrong told).elim
  · cases read
    cases parsed : json.parse (cString (answerText json peer pushed methodName payload)) with
    | none =>
      have unreadable : ∀ payloadBytes ∈ some (cString (answerText json peer pushed methodName payload)),
          json.parse payloadBytes = none := by
        rintro payloadBytes ⟨⟩
        exact parsed
      exact (FastRPCConnection.not_told_of_unreadable unreadable wrong told).elim
    | some value =>
      have right := (reports_answered 1 value).mp (FastRPCConnection.reports_of_told parsed told)
      refine (survives_iff_parse parse_empty).mpr ⟨Nat.not_lt.mp long, memory, ?_⟩
      cases pushed with
      | true => rw [parsed, right rfl]
      | false => cases parse_empty.symm.trans parsed

/-- The error code and the value of a query reach its caller just where the method's answer, executed or not found, is
within both limits and is read back as it was; a full queue is never reported. -/
theorem faithful_iff_survives (parse_empty : json.parse "" = none) :
    Faithful json peer maxMessageSize pushed methodName payload ↔
      Survives json peer maxMessageSize pushed methodName payload :=
  ⟨survives_of_faithful parse_empty, faithful_of_survives parse_empty⟩

end

end

/-- The library on null and the truth values. -/
def truthText : JsonText (Option Bool) where
  null := none
  writeString
    | none => "null".toUTF8.toList
    | some true => "true".toUTF8.toList
    | some false => "false".toUTF8.toList
  parse text :=
    if text = "null" then some none
    else if text = "true" then some (some true)
    else if text = "false" then some (some false)
    else none

def answeringPeer : Peer (Option Bool) where
  methods name := if name = "isUp" then some fun _ => some true else none
  maxMessageSize := 64

theorem faithful_iff_survives_isUp :
    Faithful truthText answeringPeer 64 true "isUp" none ∧ Faithful truthText answeringPeer 64 true "_pingNotFound_" none :=
  ⟨(faithful_iff_survives rfl).mpr (by decide +kernel), (faithful_iff_survives rfl).mpr (by decide +kernel)⟩

/-- The queue of the peer is full. -/
theorem not_faithful_fullQueue : ¬Faithful truthText answeringPeer 64 false "isUp" none :=
  fun faithful => Bool.false_ne_true (survives_of_faithful rfl faithful).1

end Mantids.RPC
