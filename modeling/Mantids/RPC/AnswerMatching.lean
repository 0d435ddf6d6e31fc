import Mantids.RPC.FastRPCAnswers

/-! Which answers get into the maps of a fast RPC connection, to whom they go, and when they
are gone: for any number of callers, any messages and any order of the sections. -/

set_option autoImplicit false

namespace Mantids.RPC

open Library

section
variable {J : Type} (parse : String → Option J)

/-- A message of the run carries the identifier and the answer. -/
def Received (run : List FastRPCOp) (requestId : Nat) (answer : Answer J) : Prop :=
  ∃ payloadBytes, FastRPCOp.processAnswer requestId answer.executionStatus (some payloadBytes) ∈ run ∧
    parse payloadBytes = some answer.value

theorem Received.later {parse : String → Option J} {run : List FastRPCOp} {requestId : Nat} {answer : Answer J}
    (received : Received parse run requestId answer) (op : FastRPCOp) :
    Received parse (run ++ [op]) requestId answer := by
  obtain ⟨payloadBytes, member, parsed⟩ := received
  exact ⟨payloadBytes, List.mem_append_left _ member, parsed⟩

/-- What a caller returns with a value is such an answer. -/
def Caller.OwnAnswer (run : List FastRPCOp) (caller : Caller J) : Prop :=
  ∀ result, caller.result = some result → ∀ value, result.value = some value →
    ∃ answer, Received parse run caller.requestId answer ∧ result = .answered answer

namespace FastRPCConnection
variable (s : FastRPCConnection J)

/-- An entry of the identifier in one of the three. -/
def Holds (requestId : Nat) : Prop :=
  requestId ∈ s.pendingRequests ∨ s.answers.get requestId ≠ none ∨ s.executionStatus.get requestId ≠ none

def KeysPending : Prop :=
  ∀ requestId, s.answers.get requestId ≠ none ∨ s.executionStatus.get requestId ≠ none → requestId ∈ s.pendingRequests

def RefusesUnsolicited : Prop :=
  ∀ requestId executionStatus payload, requestId ∉ s.pendingRequests →
    let next := s.step parse (.processAnswer requestId executionStatus payload)
    next.pendingRequests = s.pendingRequests ∧ next.answers = s.answers ∧ next.executionStatus = s.executionStatus

/-- A call returns with no entry left, and an entry is there only for a call that has not returned. -/
def CleansUp : Prop :=
  (∀ (call : Nat) (caller : Caller J) result, s.callers[call]? = some caller → caller.phase = .leaving result →
    let next := s.step parse (.cleanUp call)
    next.callers[call]? = some { caller with phase := .returned result } ∧ ¬next.Holds caller.requestId) ∧
  ∀ requestId, s.Holds requestId → ∃ caller ∈ s.callers, caller.current = true ∧ caller.requestId = requestId

/-- What holds after a run. -/
structure Matched (run : List FastRPCOp) : Prop where
  pending : s.KeysPending
  received : ∀ requestId answer, s.stored requestId = some answer → Received parse run requestId answer
  owned : ∀ caller ∈ s.callers, caller.OwnAnswer parse run
  called : ∀ requestId ∈ s.pendingRequests, ∃ caller ∈ s.callers, caller.current = true ∧ caller.requestId = requestId

variable {parse} {s} {run : List FastRPCOp}

theorem matched_new : (new : FastRPCConnection J).Matched parse [] := by
  constructor
  case pending =>
    intro requestId found
    rcases found with found | found <;> exact absurd rfl found
  case received => nofun
  case owned => nofun
  case called => nofun

/-- A step whose callers return nothing new but what is stored. -/
theorem Matched.carried (matched : s.Matched parse run) (op : FastRPCOp) {next : FastRPCConnection J}
    (pending : next.KeysPending)
    (received : ∀ requestId answer, next.stored requestId = some answer →
      s.stored requestId = some answer ∨ Received parse (run ++ [op]) requestId answer)
    (owned : ∀ after ∈ next.callers, ∀ result, after.result = some result →
      (∃ before ∈ s.callers, before.requestId = after.requestId ∧ before.result = some result) ∨
        ∀ value, result.value = some value →
          ∃ answer, s.stored after.requestId = some answer ∧ result = .answered answer)
    (called : ∀ requestId ∈ next.pendingRequests,
      ∃ caller ∈ next.callers, caller.current = true ∧ caller.requestId = requestId) :
    next.Matched parse (run ++ [op]) := by
  constructor
  case pending => exact pending
  case received =>
    intro requestId answer found
    rcases received requestId answer found with before | now
    · exact (matched.received requestId answer before).later op
    · exact now
  case owned =>
    intro after member result returned value given
    rcases owned after member result returned with ⟨before, was, id, same⟩ | new
    · obtain ⟨answer, message, shown⟩ := matched.owned before was result same value given
      rw [id] at message
      exact ⟨answer, message.later op, shown⟩
    · obtain ⟨answer, stored, shown⟩ := new value given
      exact ⟨answer, (matched.received _ answer stored).later op, shown⟩
  case called => exact called

/-- The receiving thread changes no caller's result. -/
theorem Matched.mapped (matched : s.Matched parse run) (op : FastRPCOp) {next : FastRPCConnection J}
    (f : Caller J → Caller J) (callers : next.callers = s.callers.map f)
    (id : ∀ caller, (f caller).requestId = caller.requestId)
    (current : ∀ caller, (f caller).current = caller.current)
    (result : ∀ caller, (f caller).result = caller.result) (pending : next.KeysPending)
    (received : ∀ requestId answer, next.stored requestId = some answer →
      s.stored requestId = some answer ∨ Received parse (run ++ [op]) requestId answer)
    (less : ∀ requestId ∈ next.pendingRequests, requestId ∈ s.pendingRequests) : next.Matched parse (run ++ [op]) := by
  apply matched.carried op pending received
  case owned =>
    intro after member result' returned
    rw [callers] at member
    obtain ⟨before, was, rfl⟩ := List.mem_map.mp member
    rw [result] at returned
    exact .inl ⟨before, was, (id before).symm, returned⟩
  case called =>
    intro requestId member
    obtain ⟨caller, was, isCurrent, same⟩ := matched.called requestId (less requestId member)
    refine ⟨f caller, ?_, ?_, ?_⟩
    · rw [callers]
      exact List.mem_map_of_mem was
    · rw [current, isCurrent]
    · rw [id, same]

theorem Matched.unchanged (matched : s.Matched parse run) (op : FastRPCOp) : s.Matched parse (run ++ [op]) := by
  apply matched.carried op matched.pending fun _ _ entry => .inl entry
  case owned => exact fun caller member _ returned => .inl ⟨caller, member, rfl, returned⟩
  case called => exact matched.called

/-! ## A caller -/

/-- A caller goes on, and the entries of identifiers that have no caller any more are gone. -/
theorem Matched.moved (matched : s.Matched parse run) (op : FastRPCOp) {next : FastRPCConnection J} {call : Nat}
    {caller : Caller J} (found : s.callers[call]? = some caller) (phase : Phase J)
    (callers : next.callers = (s.move call phase).callers) (pending : next.KeysPending)
    (received : ∀ requestId answer, next.stored requestId = some answer → s.stored requestId = some answer)
    (resolved : ∀ result, ({ caller with phase := phase } : Caller J).result = some result →
      caller.result = some result ∨ ∀ value, result.value = some value →
        ∃ answer, s.stored caller.requestId = some answer ∧ result = .answered answer)
    (known : ∀ requestId ∈ next.pendingRequests, requestId ≠ caller.requestId → requestId ∈ s.pendingRequests)
    (stays : caller.requestId ∈ next.pendingRequests → ({ caller with phase := phase } : Caller J).current = true) :
    next.Matched parse (run ++ [op]) := by
  apply matched.carried op pending fun requestId answer entry => .inl (received requestId answer entry)
  case owned =>
    intro after member result returned
    rw [callers] at member
    obtain ⟨other, at_other⟩ := List.getElem?_of_mem member
    rcases move_before found at_other with ⟨rfl, rfl⟩ | ⟨_, before⟩
    · rcases resolved result returned with same | new
      · exact .inl ⟨caller, List.mem_of_getElem? found, rfl, same⟩
      · exact .inr new
    · exact .inl ⟨after, List.mem_of_getElem? before, rfl, returned⟩
  case called =>
    intro requestId member
    by_cases own : requestId = caller.requestId
    · subst own
      refine ⟨{ caller with phase := phase }, ?_, stays member, rfl⟩
      rw [callers]
      exact List.mem_of_getElem? (move_found found phase)
    · obtain ⟨another, was, current, same⟩ := matched.called requestId (known requestId member own)
      obtain ⟨other, at_other⟩ := List.getElem?_of_mem was
      have different : call ≠ other := by
        intro equal
        subst equal
        rw [found] at at_other
        cases at_other
        exact own same.symm
      refine ⟨another, ?_, current, same⟩
      rw [callers]
      apply List.mem_of_getElem? (i := other)
      rw [getElem?_move, at_other]
      simp only [different, if_false, Option.map_some]

/-- A step of a caller that leaves the maps as they are. -/
theorem Matched.move (matched : s.Matched parse run) (op : FastRPCOp) {call : Nat} {caller : Caller J}
    (found : s.callers[call]? = some caller) (phase : Phase J)
    (resolved : ∀ result, ({ caller with phase := phase } : Caller J).result = some result →
      caller.result = some result ∨ ∀ value, result.value = some value →
        ∃ answer, s.stored caller.requestId = some answer ∧ result = .answered answer)
    (stays : ({ caller with phase := phase } : Caller J).current = true) :
    (s.move call phase).Matched parse (run ++ [op]) := by
  apply matched.moved op found phase
  case callers => rfl
  case pending => exact matched.pending
  case received => exact fun _ _ entry => entry
  case resolved => exact resolved
  case known => exact fun _ member _ => member
  case stays => exact fun _ => stays

theorem keysPending_forget (pending : s.KeysPending) (requestId : Nat) : (s.forget requestId).KeysPending := by
  intro other found
  simp only [forget, get_erase] at found
  have different : other ≠ requestId := by
    rintro rfl
    simp at found
  simp only [different, if_false] at found
  exact List.mem_filter.mpr ⟨pending other found, by simp [different]⟩

theorem stored_of_stored_forget {requestId other : Nat} {answer : Answer J}
    (found : (s.forget requestId).stored other = some answer) : s.stored other = some answer := by
  rw [stored_forget] at found
  split at found
  · cases found
  · exact found

theorem not_holds_forget (s : FastRPCConnection J) (requestId : Nat) : ¬(s.forget requestId).Holds requestId := by
  simp [Holds, forget]

theorem Matched.wake (matched : s.Matched parse run) (op : FastRPCOp) {call : Nat} {caller : Caller J}
    (found : s.callers[call]? = some caller) : (s.wake call caller).Matched parse (run ++ [op]) := by
  unfold FastRPCConnection.wake
  cases caller.phase with
  | expired =>
    apply matched.move op found _ _ rfl
    intro result same
    cases same
    exact .inr nofun
  | waiting notified late =>
    simp only
    cases entry : s.stored caller.requestId with
    | some answer =>
      apply matched.move op found _ _ rfl
      intro result same
      cases same
      exact .inr fun _ _ => ⟨answer, entry, rfl⟩
    | none =>
      cases s.terminated with
      | true =>
        apply matched.move op found _ _ rfl
        intro result same
        cases same
        exact .inr nofun
      | false => exact matched.move op found _ nofun rfl
  | _ => exact matched.unchanged op

theorem Matched.register (matched : s.Matched parse run) (op : FastRPCOp) {call : Nat} {caller : Caller J}
    (found : s.callers[call]? = some caller) :
    { s.move call .sending with pendingRequests := caller.requestId :: s.pendingRequests }.Matched parse
      (run ++ [op]) := by
  apply matched.moved op found .sending
  case callers => rfl
  case pending => exact fun requestId entry => List.mem_cons_of_mem _ (matched.pending requestId entry)
  case received => exact fun _ _ entry => entry
  case resolved => nofun
  case known =>
    intro requestId member different
    exact (List.mem_cons.mp member).resolve_left different
  case stays => exact fun _ => rfl

theorem Matched.cleanUp (matched : s.Matched parse run) (op : FastRPCOp) {call : Nat} {caller : Caller J}
    {result : Result J} (found : s.callers[call]? = some caller) (leaving : caller.phase = .leaving result) :
    ((s.move call (.returned result)).forget caller.requestId).Matched parse (run ++ [op]) := by
  apply matched.moved op found (.returned result)
  case callers => rfl
  case pending =>
    apply keysPending_forget
    exact matched.pending
  case received => exact fun _ _ entry => stored_of_stored_forget entry
  case resolved =>
    intro other same
    cases same
    left
    simp only [Caller.result, leaving]
  case known => exact fun _ member _ => List.mem_of_mem_filter member
  case stays =>
    intro member
    simp [forget] at member

theorem Matched.advance (matched : s.Matched parse run) {call : Nat} {caller : Caller J}
    (found : s.callers[call]? = some caller) (op : FastRPCOp) :
    (s.advance call caller op).Matched parse (run ++ [op]) := by
  unfold FastRPCConnection.advance
  cases op with
  | register other =>
    cases caller.phase with
    | numbered => exact matched.register _ found
    | _ => exact matched.unchanged _
  | send other =>
    cases caller.phase with
    | sending => exact matched.move _ found _ nofun rfl
    | _ => exact matched.unchanged _
  | wait other =>
    cases caller.phase with
    | looping => exact matched.move _ found _ nofun rfl
    | _ => exact matched.unchanged _
  | deadline other =>
    cases caller.phase with
    | waiting notified late => exact matched.move _ found _ nofun rfl
    | _ => exact matched.unchanged _
  | wake other => exact matched.wake _ found
  | cleanUp other =>
    cases phase : caller.phase with
    | leaving result => exact matched.cleanUp _ found phase
    | _ => exact matched.unchanged _
  | _ => exact matched.unchanged _

theorem Matched.openCall (matched : s.Matched parse run) (op : FastRPCOp) :
    s.openCall.Matched parse (run ++ [op]) := by
  apply matched.carried op
  case pending => exact matched.pending
  case received => exact fun _ _ entry => .inl entry
  case owned =>
    intro after member result returned
    rcases List.mem_append.mp member with before | new
    · exact .inl ⟨after, before, rfl, returned⟩
    · cases List.mem_singleton.mp new
      cases returned
  case called =>
    intro requestId member
    obtain ⟨caller, was, current, same⟩ := matched.called requestId member
    exact ⟨caller, List.mem_append_left _ was, current, same⟩

/-! ## The receiving thread -/

theorem Matched.store (matched : s.Matched parse run) {requestId : Nat} {executionStatus : UInt8}
    {payloadBytes : String} {value : J} (member : requestId ∈ s.pendingRequests)
    (parsed : parse payloadBytes = some value) :
    (s.store requestId ⟨executionStatus, value⟩).Matched parse
      (run ++ [.processAnswer requestId executionStatus (some payloadBytes)]) := by
  apply matched.mapped _ (fun caller => Caller.notify
    (if caller.requestId = requestId ∧ caller.undecided then { caller with promised := some ⟨executionStatus, value⟩ }
      else caller))
  case callers => simp [FastRPCConnection.store, notifyAll, Function.comp_def]
  case id =>
    intro caller
    rw [Caller.notify_requestId]
    split <;> rfl
  case current =>
    intro caller
    rw [Caller.notify_current]
    split <;> rfl
  case result =>
    intro caller
    rw [Caller.notify_result]
    split <;> rfl
  case pending =>
    intro other entry
    simp only [FastRPCConnection.store, notifyAll, get_insert] at entry
    by_cases own : other = requestId
    · rw [own]
      exact member
    · simp only [own, if_false] at entry
      exact matched.pending other entry
  case received =>
    intro other answer entry
    rw [stored_store] at entry
    split at entry
    · rename_i own
      cases entry
      rw [own]
      exact .inr ⟨payloadBytes, List.mem_append_right _ (List.mem_singleton_self _), parsed⟩
    · exact .inl entry
  case less => exact fun _ pending => pending

theorem Matched.stopReading (matched : s.Matched parse run) (op : FastRPCOp) :
    { s with reading := false }.Matched parse (run ++ [op]) := by
  apply matched.mapped op id
  case callers => exact (List.map_id _).symm
  case id => exact fun _ => rfl
  case current => exact fun _ => rfl
  case result => exact fun _ => rfl
  case pending => exact matched.pending
  case received => exact fun _ _ entry => .inl entry
  case less => exact fun _ member => member

theorem Matched.processAnswer (matched : s.Matched parse run) (requestId : Nat) (executionStatus : UInt8)
    (payload : Option String) :
    (s.processAnswer parse requestId executionStatus payload).Matched parse
      (run ++ [.processAnswer requestId executionStatus payload]) := by
  unfold FastRPCConnection.processAnswer
  split
  · exact matched.stopReading _
  · cases payload with
    | none => exact matched.stopReading _
    | some payloadBytes =>
      dsimp only
      split
      · rename_i member
        cases parsed : parse payloadBytes with
        | some value => exact matched.store member parsed
        | none =>
          apply matched.mapped _ id
          case callers => exact (List.map_id _).symm
          case id => exact fun _ => rfl
          case current => exact fun _ => rfl
          case result => exact fun _ => rfl
          case pending => exact keysPending_forget matched.pending requestId
          case received => exact fun _ _ entry => .inl (stored_of_stored_forget entry)
          case less => exact fun _ pending => List.mem_of_mem_filter pending
      · exact matched.unchanged _

theorem Matched.step (matched : s.Matched parse run) (op : FastRPCOp) :
    (s.step parse op).Matched parse (run ++ [op]) := by
  unfold FastRPCConnection.step
  cases op with
  | openCall => exact matched.openCall _
  | processAnswer requestId executionStatus payload =>
    dsimp only
    split
    · exact matched.processAnswer requestId executionStatus payload
    · exact matched.unchanged _
  | stopReading => exact matched.stopReading _
  | terminate =>
    dsimp only
    split
    · exact matched.unchanged _
    · apply matched.mapped _ (fun caller => if caller.undecided then { caller with cut := true } else caller)
      case callers => rfl
      case id =>
        intro caller
        split <;> rfl
      case current =>
        intro caller
        split <;> rfl
      case result =>
        intro caller
        split <;> rfl
      case pending => exact matched.pending
      case received => exact fun _ _ entry => .inl entry
      case less => exact fun _ member => member
  | announce =>
    dsimp only
    split
    · apply matched.mapped _ Caller.notify
      case callers => rfl
      case id => exact Caller.notify_requestId
      case current => exact Caller.notify_current
      case result => exact Caller.notify_result
      case pending => exact matched.pending
      case received => exact fun _ _ entry => .inl entry
      case less => exact fun _ member => member
    · exact matched.unchanged _
  | register call | send call | wait call | deadline call | wake call | cleanUp call =>
    dsimp only
    cases found : s.callers[call]? with
    | none => exact matched.unchanged _
    | some caller => exact matched.advance found _

/-! ## Every interleaving -/

theorem refusesUnsolicited (parse : String → Option J) (s : FastRPCConnection J) : s.RefusesUnsolicited parse := by
  intro requestId executionStatus payload unsolicited
  dsimp only [FastRPCConnection.step, FastRPCConnection.processAnswer]
  simp only [unsolicited, if_false]
  split_ifs
  · exact ⟨rfl, rfl, rfl⟩
  · cases payload <;> exact ⟨rfl, rfl, rfl⟩
  · exact ⟨rfl, rfl, rfl⟩

theorem Matched.cleansUp (matched : s.Matched parse run) : s.CleansUp parse := by
  constructor
  · intro call caller result found leaving
    have stepped : s.step parse (.cleanUp call) = (s.move call (.returned result)).forget caller.requestId := by
      simp only [FastRPCConnection.step, found, FastRPCConnection.advance, leaving]
    rw [stepped]
    exact ⟨move_found found (.returned result), not_holds_forget _ _⟩
  · intro requestId holds
    apply matched.called
    rcases holds with member | entry
    · exact member
    · exact matched.pending requestId entry

/-- The answers of a connection, for any callers and any peer. -/
theorem answers_matched (parse : String → Option J) (run : List FastRPCOp) :
    let s := reached (step parse) new run
    s.KeysPending ∧ (∀ caller ∈ s.callers, caller.OwnAnswer parse run) ∧ s.RefusesUnsolicited parse ∧
      s.CleansUp parse := by
  have matched : (reached (step parse) new run).Matched parse ([] ++ run) :=
    history_reached (fun past s => s.Matched parse past) (fun _ _ op before => before.step op) [] new run matched_new
  exact ⟨matched.pending, matched.owned, refusesUnsolicited parse _, matched.cleansUp⟩

end FastRPCConnection

end

end Mantids.RPC
