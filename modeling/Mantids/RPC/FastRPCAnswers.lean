import Mantids.RPC.FastRPC

/-! What the callers of a fast RPC connection return: the answer that was stored for them
in time, or the end of the connection. -/

set_option autoImplicit false

namespace Mantids.RPC

open Library

section
variable {J : Type}

def Caller.result (caller : Caller J) : Option (Result J) :=
  match caller.phase with
  | .leaving result | .returned result => some result
  | _ => none

theorem Caller.current_of_undecided (caller : Caller J) (undecided : caller.undecided = true) :
    caller.current = true := by
  obtain ⟨_, phase, _, _⟩ := caller
  cases phase <;> first | rfl | cases undecided

theorem Caller.undecided_of_waiting (caller : Caller J) {notified late : Bool}
    (waits : caller.phase = .waiting notified late) : caller.undecided = true := by
  simp only [Caller.undecided, waits]

theorem Caller.decided_of_expired (caller : Caller J) (beyond : caller.phase = .expired) :
    caller.undecided ≠ true := by
  simp only [Caller.undecided, beyond]
  nofun

theorem Caller.unresolved (caller : Caller J) (undecided : caller.undecided = true) (result : Result J) :
    caller.result ≠ some result := by
  obtain ⟨_, phase, _, _⟩ := caller
  cases phase <;> cases undecided <;> nofun

@[simp] theorem Caller.notify_requestId (caller : Caller J) : caller.notify.requestId = caller.requestId := by
  unfold Caller.notify
  split <;> rfl

@[simp] theorem Caller.notify_promised (caller : Caller J) : caller.notify.promised = caller.promised := by
  unfold Caller.notify
  split <;> rfl

@[simp] theorem Caller.notify_cut (caller : Caller J) : caller.notify.cut = caller.cut := by
  unfold Caller.notify
  split <;> rfl

@[simp] theorem Caller.notify_undecided (caller : Caller J) : caller.notify.undecided = caller.undecided := by
  obtain ⟨_, phase, _, _⟩ := caller
  cases phase <;> rfl

@[simp] theorem Caller.notify_current (caller : Caller J) : caller.notify.current = caller.current := by
  obtain ⟨_, phase, _, _⟩ := caller
  cases phase <;> rfl

@[simp] theorem Caller.notify_result (caller : Caller J) : caller.notify.result = caller.result := by
  obtain ⟨_, phase, _, _⟩ := caller
  cases phase <;> rfl

theorem Caller.notify_expired {caller : Caller J} (beyond : caller.notify.phase = .expired) : caller.phase = .expired := by
  unfold Caller.notify at beyond
  split at beyond
  · cases beyond
  · exact beyond

theorem Caller.notify_waiting (caller : Caller J) (late : Bool) : caller.notify.phase ≠ .waiting false late := by
  unfold Caller.notify
  split
  · nofun
  · rename_i asleep
    exact asleep false late

/-- What was stored in time is returned, and without it the termination that came in time. -/
def Caller.Kept (caller : Caller J) : Prop :=
  ∀ result, caller.result = some result →
    (∀ answer, caller.promised = some answer → result = .answered answer) ∧
      (caller.promised = none → caller.cut = true → result = .terminated)

namespace FastRPCConnection

def NothingLost (s : FastRPCConnection J) : Prop := ∀ caller ∈ s.callers, caller.Kept

/-- A deadline passes only in a wait that begins in time to be notified, is not notified of an answer
or of the end, and not between the mark of termination and its notification. An identifier comes round
again after its call is over, and no broken answer follows one that its caller has yet to take. -/
def OnTime (parse : String → Option J) (s : FastRPCConnection J) : FastRPCOp → Prop
  | .openCall => ∀ caller ∈ s.callers, caller.current = true → caller.requestId ≠ s.requestIdCounter
  | .deadline call =>
    ∀ caller ∈ s.callers[call]?, ∀ notified late, caller.phase = .waiting notified late →
      late = false ∧ (notified = true → s.stored caller.requestId = none ∧ s.terminated = false) ∧
        (s.terminated = true → s.announced = true)
  | .processAnswer requestId _ payload =>
    ∀ payloadBytes ∈ payload, parse payloadBytes = none →
      ∀ caller ∈ s.callers, caller.undecided = true → caller.requestId = requestId → s.stored requestId = none
  | _ => True

/-! ## What holds between any two sections -/

/-- The maps know the identifier. -/
def InUse (s : FastRPCConnection J) (requestId : Nat) : Prop :=
  requestId ∈ s.pendingRequests ∨ s.stored requestId ≠ none

structure Follows (s : FastRPCConnection J) (caller : Caller J) : Prop where
  promised : caller.undecided = true → caller.promised = s.stored caller.requestId
  cut : caller.undecided = true → caller.cut = s.terminated
  told : caller.phase = .waiting false false → s.stored caller.requestId = none ∧ s.announced = false
  expired : caller.phase = .expired → caller.promised = none ∧ caller.cut = false
  kept : caller.Kept

structure Sound (s : FastRPCConnection J) : Prop where
  callers : ∀ (call : Nat) (caller : Caller J), s.callers[call]? = some caller → s.Follows caller
  apart : ∀ (call other : Nat) (caller another : Caller J), s.callers[call]? = some caller →
    s.callers[other]? = some another → caller.current = true → another.current = true →
    caller.requestId = another.requestId → call = other
  used : ∀ requestId, s.InUse requestId →
    ∃ (call : Nat) (caller : Caller J), s.callers[call]? = some caller ∧ caller.current = true ∧
      caller.requestId = requestId
  ended : s.terminated = true → s.reading = false
  announced : s.announced = true → s.terminated = true

variable {s : FastRPCConnection J}

theorem sound_new : (new : FastRPCConnection J).Sound := by
  constructor
  case used =>
    intro requestId used
    rcases used with member | found
    · cases member
    · exact absurd rfl found
  all_goals simp [new]

theorem Sound.nothingLost (sound : s.Sound) : s.NothingLost := by
  intro caller member
  obtain ⟨call, found⟩ := List.getElem?_of_mem member
  exact (sound.callers call caller found).kept

/-- A step in which every caller follows from itself. -/
theorem Sound.carried {next : FastRPCConnection J} (sound : s.Sound)
    (callers : ∀ (call : Nat) (after : Caller J), next.callers[call]? = some after →
      ∃ before, s.callers[call]? = some before ∧ after.requestId = before.requestId ∧
        (after.current = true → before.current = true) ∧ next.Follows after)
    (used : ∀ requestId, next.InUse requestId →
      ∃ (call : Nat) (caller : Caller J), next.callers[call]? = some caller ∧ caller.current = true ∧
        caller.requestId = requestId)
    (ended : next.terminated = true → next.reading = false)
    (announced : next.announced = true → next.terminated = true) : next.Sound := by
  constructor
  case callers =>
    intro call after found
    obtain ⟨_, _, _, _, follows⟩ := callers call after found
    exact follows
  case apart =>
    intro call other after another found second current currentToo same
    obtain ⟨before, foundBefore, id, stays, _⟩ := callers call after found
    obtain ⟨beforeToo, secondBefore, idToo, staysToo, _⟩ := callers other another second
    apply sound.apart call other before beforeToo foundBefore secondBefore (stays current) (staysToo currentToo)
    rw [← id, ← idToo, same]
  case used => exact used
  case ended => exact ended
  case announced => exact announced

/-! ## Callers -/

theorem getElem?_move (s : FastRPCConnection J) (call other : Nat) (phase : Phase J) :
    (s.move call phase).callers[other]? =
      (s.callers[other]?).map fun caller => if call = other then { caller with phase := phase } else caller :=
  List.getElem?_modify _ _ _ _

theorem move_found {call : Nat} {caller : Caller J} (found : s.callers[call]? = some caller) (phase : Phase J) :
    (s.move call phase).callers[call]? = some { caller with phase := phase } := by
  rw [getElem?_move, found, Option.map_some, if_pos rfl]

/-- Every caller but one stays as it is. -/
theorem move_before {call other : Nat} {caller after : Caller J} {phase : Phase J}
    (found : s.callers[call]? = some caller) (moved : (s.move call phase).callers[other]? = some after) :
    (call = other ∧ after = { caller with phase := phase }) ∨ (call ≠ other ∧ s.callers[other]? = some after) := by
  by_cases same : call = other
  · subst same
    rw [move_found found] at moved
    cases moved
    exact .inl ⟨rfl, rfl⟩
  · rw [getElem?_move] at moved
    simp only [same, if_false, Option.map_id'] at moved
    exact .inr ⟨same, moved⟩

theorem Sound.move (sound : s.Sound) {call : Nat} {caller : Caller J} (found : s.callers[call]? = some caller)
    (current : caller.current = true) {phase : Phase J} (follows : s.Follows { caller with phase := phase })
    (stays : ({ caller with phase := phase } : Caller J).current = true) : (s.move call phase).Sound := by
  apply sound.carried
  case callers =>
    intro other after moved
    rcases move_before found moved with ⟨rfl, rfl⟩ | ⟨_, before⟩
    · exact ⟨caller, found, rfl, fun _ => current, ⟨follows.promised, follows.cut, follows.told, follows.expired,
        follows.kept⟩⟩
    · have old := sound.callers other after before
      exact ⟨after, before, rfl, id, ⟨old.promised, old.cut, old.told, old.expired, old.kept⟩⟩
  case used =>
    intro requestId used
    obtain ⟨other, owner, at_other, ownerCurrent, id⟩ := sound.used requestId used
    by_cases same : call = other
    · subst same
      rw [found] at at_other
      cases at_other
      exact ⟨call, _, move_found found phase, stays, id⟩
    · refine ⟨other, owner, ?_, ownerCurrent, id⟩
      rw [getElem?_move, at_other]
      simp only [same, if_false, Option.map_some]
  case ended => exact sound.ended
  case announced => exact sound.announced

/-- A caller that is still in the loop may go on in it. -/
theorem Follows.undecided {caller : Caller J} {phase : Phase J} (follows : s.Follows caller)
    (before : caller.undecided = true) (after : ({ caller with phase := phase } : Caller J).undecided = true)
    (told : phase = .waiting false false → s.stored caller.requestId = none ∧ s.announced = false) :
    s.Follows { caller with phase := phase } := by
  constructor
  case promised => exact fun _ => follows.promised before
  case cut => exact fun _ => follows.cut before
  case told => exact told
  case expired =>
    intro beyond
    cases phase <;> cases beyond
    cases after
  case kept =>
    intro result resolved
    exact absurd resolved (Caller.unresolved _ after result)

theorem Sound.register (sound : s.Sound) {call : Nat} {caller : Caller J} (found : s.callers[call]? = some caller)
    (current : caller.current = true) : { s with pendingRequests := caller.requestId :: s.pendingRequests }.Sound := by
  constructor
  case callers =>
    intro other another at_other
    have old := sound.callers other another at_other
    exact ⟨old.promised, old.cut, old.told, old.expired, old.kept⟩
  case apart => exact sound.apart
  case used =>
    intro requestId used
    rcases used with member | found'
    · rcases List.mem_cons.mp member with rfl | old
      · exact ⟨call, caller, found, current, rfl⟩
      · exact sound.used requestId (.inl old)
    · exact sound.used requestId (.inr found')
  case ended => exact sound.ended
  case announced => exact sound.announced

theorem stored_forget (s : FastRPCConnection J) (requestId other : Nat) :
    (s.forget requestId).stored other = if other = requestId then none else s.stored other := by
  unfold stored forget
  simp only [get_erase]
  split <;> rfl

/-- The entries of a call go when the call is over. -/
theorem Sound.cleanUp (sound : s.Sound) {call : Nat} {caller : Caller J} {result : Result J}
    (found : s.callers[call]? = some caller) (leaving : caller.phase = .leaving result) :
    ((s.move call (.returned result)).forget caller.requestId).Sound := by
  have current : caller.current = true := by
    simp only [Caller.current, leaving]
  have own := sound.callers call caller found
  apply sound.carried
  case callers =>
    intro other after moved
    rcases move_before found moved with ⟨rfl, rfl⟩ | ⟨different, before⟩
    · refine ⟨caller, found, rfl, fun _ => current, ⟨nofun, nofun, nofun, nofun, ?_⟩⟩
      intro result' returned
      cases returned
      apply own.kept
      simp only [Caller.result, leaving]
    · have old := sound.callers other after before
      -- an undecided caller has another identifier
      have kept : after.undecided = true → (s.forget caller.requestId).stored after.requestId = s.stored after.requestId := by
        intro undecided
        rw [stored_forget, if_neg]
        intro same
        apply different
        exact sound.apart call other caller after found before current (after.current_of_undecided undecided) same.symm
      refine ⟨after, before, rfl, id, ⟨?_, old.cut, ?_, old.expired, old.kept⟩⟩
      · intro undecided
        exact (old.promised undecided).trans (kept undecided).symm
      · intro waits
        have undecided := after.undecided_of_waiting waits
        exact ⟨(kept undecided).trans (old.told waits).1, (old.told waits).2⟩
  case used =>
    intro requestId used
    have remains : s.InUse requestId ∧ requestId ≠ caller.requestId := by
      rcases used with member | present
      · have both := List.mem_filter.mp member
        exact ⟨.inl both.1, of_decide_eq_true both.2⟩
      · change (s.forget caller.requestId).stored requestId ≠ none at present
        rw [stored_forget] at present
        split at present
        · exact absurd rfl present
        · rename_i different
          exact ⟨.inr present, different⟩
    obtain ⟨other, owner, at_other, ownerCurrent, id⟩ := sound.used requestId remains.1
    refine ⟨other, owner, ?_, ownerCurrent, id⟩
    have different : call ≠ other := by
      intro same
      subst same
      rw [found] at at_other
      cases at_other
      exact remains.2 id.symm
    change (s.move call _).callers[other]? = _
    rw [getElem?_move, at_other]
    simp only [different, if_false, Option.map_some]
  case ended => exact sound.ended
  case announced => exact sound.announced

/-- Out of the loop with the right result. -/
theorem Follows.leaves {caller : Caller J} {result : Result J}
    (right : (∀ answer, caller.promised = some answer → result = .answered answer) ∧
      (caller.promised = none → caller.cut = true → result = .terminated)) :
    s.Follows { caller with phase := .leaving result } := by
  constructor
  case kept =>
    intro other same
    cases same
    exact right
  all_goals nofun

theorem Sound.wake (sound : s.Sound) {call : Nat} {caller : Caller J} (found : s.callers[call]? = some caller) :
    (s.wake call caller).Sound := by
  have own := sound.callers call caller found
  unfold FastRPCConnection.wake
  cases phase : caller.phase with
  | expired =>
    obtain ⟨unpromised, uncut⟩ := own.expired phase
    apply sound.move found (by simp only [Caller.current, phase]) _ rfl
    apply Follows.leaves
    rw [unpromised, uncut]
    exact ⟨nofun, nofun⟩
  | waiting notified late =>
    have undecided := caller.undecided_of_waiting phase
    have current := caller.current_of_undecided undecided
    have promised := own.promised undecided
    have cut := own.cut undecided
    simp only
    cases entry : s.stored caller.requestId with
    | some answer =>
      apply sound.move found current _ rfl
      apply Follows.leaves
      rw [promised, entry]
      constructor
      · intro other same
        cases same
        rfl
      · exact nofun
    | none =>
      by_cases terminated : s.terminated = true
      · simp only [terminated, if_true]
        apply sound.move found current _ rfl
        apply Follows.leaves
        rw [promised, entry]
        exact ⟨nofun, fun _ _ => rfl⟩
      · simp only [terminated, Bool.false_eq_true, if_false]
        exact sound.move found current (own.undecided undecided rfl nofun) rfl
  | _ => exact sound

theorem Sound.advance (sound : s.Sound) (parse : String → Option J) {call : Nat} {caller : Caller J}
    (found : s.callers[call]? = some caller) (op : FastRPCOp) (onTime : s.OnTime parse op)
    (called : ∀ other, op = .deadline other → other = call) :
    (s.advance call caller op).Sound := by
  have follows := sound.callers call caller found
  unfold FastRPCConnection.advance
  cases op with
  | register other =>
    simp only
    cases phase : caller.phase with
    | numbered =>
      have undecided : caller.undecided = true := by
        simp only [Caller.undecided, phase]
      have moved : (s.move call .sending).Sound :=
        sound.move found (caller.current_of_undecided undecided) (follows.undecided undecided rfl nofun) rfl
      have registered := moved.register (move_found found .sending) rfl
      exact registered
    | _ => exact sound
  | send other =>
    simp only
    cases phase : caller.phase with
    | sending =>
      have undecided : caller.undecided = true := by
        simp only [Caller.undecided, phase]
      exact sound.move found (caller.current_of_undecided undecided) (follows.undecided undecided rfl nofun) rfl
    | _ => exact sound
  | wait other =>
    simp only
    cases phase : caller.phase with
    | looping =>
      have undecided : caller.undecided = true := by
        simp only [Caller.undecided, phase]
      apply sound.move found (caller.current_of_undecided undecided) _ rfl
      apply follows.undecided undecided rfl
      intro inTime
      injection inTime with _ inTime
      simpa using inTime
    | _ => exact sound
  | deadline other =>
    cases called other rfl
    simp only
    cases phase : caller.phase with
    | waiting notified late =>
      have undecided := caller.undecided_of_waiting phase
      obtain ⟨inTime, quiet, announced⟩ := onTime caller found notified late phase
      subst inTime
      -- nothing is there for the caller, or it would have been notified of it
      have idle : s.stored caller.requestId = none ∧ s.terminated = false := by
        cases notified with
        | true => exact quiet rfl
        | false =>
          obtain ⟨unstored, silent⟩ := follows.told phase
          refine ⟨unstored, Bool.eq_false_iff.mpr fun terminated => ?_⟩
          rw [announced terminated] at silent
          cases silent
      apply sound.move found (caller.current_of_undecided undecided) _ rfl
      constructor
      case expired =>
        intro _
        rw [← idle.1, ← idle.2]
        exact ⟨follows.promised undecided, follows.cut undecided⟩
      all_goals nofun
    | _ => exact sound
  | wake other => exact sound.wake found
  | cleanUp other =>
    simp only
    cases phase : caller.phase with
    | leaving result => exact sound.cleanUp found phase
    | _ => exact sound
  | _ => exact sound

theorem Sound.openCall (sound : s.Sound)
    (fresh : ∀ caller ∈ s.callers, caller.current = true → caller.requestId ≠ s.requestIdCounter) :
    s.openCall.Sound := by
  have unused : ¬ s.InUse s.requestIdCounter := by
    intro used
    obtain ⟨call, caller, found, current, id⟩ := sound.used _ used
    exact fresh caller (List.mem_of_getElem? found) current id
  -- a caller of the next state is one of before, or the new one
  have origin : ∀ (call : Nat) (caller : Caller J), s.openCall.callers[call]? = some caller →
      s.callers[call]? = some caller ∨
        (call = s.callers.length ∧ caller = ⟨s.requestIdCounter, .numbered, none, s.terminated⟩) := by
    intro call caller found
    rw [FastRPCConnection.openCall, List.getElem?_append] at found
    split at found
    · exact .inl found
    · rename_i beyond
      obtain ⟨bound, at_end⟩ := List.getElem?_eq_some_iff.mp found
      simp only [List.length_singleton] at bound
      simp only [List.getElem_singleton] at at_end
      exact .inr ⟨by omega, at_end.symm⟩
  constructor
  case callers =>
    intro call caller found
    rcases origin call caller found with before | ⟨_, rfl⟩
    · have old := sound.callers call caller before
      exact ⟨old.promised, old.cut, old.told, old.expired, old.kept⟩
    · have unstored : s.stored s.requestIdCounter = none := by
        by_contra present
        exact unused (.inr present)
      exact ⟨fun _ => unstored.symm, fun _ => rfl, nofun, nofun, nofun⟩
  case apart =>
    intro call other caller another found second current currentToo same
    rcases origin call caller found with before | ⟨rfl, rfl⟩ <;>
      rcases origin other another second with beforeToo | ⟨rfl, rfl⟩
    · exact sound.apart call other caller another before beforeToo current currentToo same
    · exact absurd same (fresh caller (List.mem_of_getElem? before) current)
    · exact absurd same.symm (fresh another (List.mem_of_getElem? beforeToo) currentToo)
    · rfl
  case used =>
    intro requestId used
    obtain ⟨call, caller, found, current, id⟩ := sound.used requestId used
    have bound := (List.getElem?_eq_some_iff.mp found).1
    refine ⟨call, caller, ?_, current, id⟩
    rw [FastRPCConnection.openCall, List.getElem?_append_left bound, found]
  case ended => exact sound.ended
  case announced => exact sound.announced

/-! ## The receiving thread -/

/-- A step of the receiving thread is the same for every caller, and moves none along but by a notification. -/
theorem Sound.mapped {next : FastRPCConnection J} (sound : s.Sound) (f : Caller J → Caller J)
    (callers : next.callers = s.callers.map f) (id : ∀ caller, (f caller).requestId = caller.requestId)
    (current : ∀ caller, (f caller).current = caller.current)
    (follows : ∀ (call : Nat) (caller : Caller J), s.callers[call]? = some caller → next.Follows (f caller))
    (used : ∀ requestId, next.InUse requestId → s.InUse requestId)
    (ended : next.terminated = true → next.reading = false)
    (announced : next.announced = true → next.terminated = true) : next.Sound := by
  have get : ∀ call : Nat, next.callers[call]? = (s.callers[call]?).map f := by
    intro call
    rw [callers, List.getElem?_map]
  apply sound.carried
  case callers =>
    intro call after found
    rw [get, Option.map_eq_some_iff] at found
    obtain ⟨before, at_call, rfl⟩ := found
    refine ⟨before, at_call, id before, ?_, follows call before at_call⟩
    rw [current]
    exact fun now => now
  case used =>
    intro requestId inUse
    obtain ⟨call, caller, found, isCurrent, same⟩ := sound.used requestId (used requestId inUse)
    refine ⟨call, f caller, ?_, ?_, ?_⟩
    · rw [get, found, Option.map_some]
    · rw [current, isCurrent]
    · rw [id, same]
  case ended => exact ended
  case announced => exact announced

/-- Whoever waits is notified, so that it does not matter what was there when the wait began. -/
theorem follows_notify {caller : Caller J}
    (promised : caller.undecided = true → caller.promised = s.stored caller.requestId)
    (cut : caller.undecided = true → caller.cut = s.terminated)
    (expired : caller.phase = .expired → caller.promised = none ∧ caller.cut = false) (kept : caller.Kept) :
    s.Follows caller.notify := by
  constructor
  case promised =>
    simp only [Caller.notify_undecided, Caller.notify_promised, Caller.notify_requestId]
    exact promised
  case cut =>
    simp only [Caller.notify_undecided, Caller.notify_cut]
    exact cut
  case told => exact fun waits => absurd waits (caller.notify_waiting false)
  case expired =>
    intro beyond
    simp only [Caller.notify_promised, Caller.notify_cut]
    exact expired (Caller.notify_expired beyond)
  case kept =>
    unfold Caller.Kept
    simp only [Caller.notify_result, Caller.notify_promised, Caller.notify_cut]
    exact kept

theorem Sound.announce (sound : s.Sound) (terminated : s.terminated = true) :
    { s.notifyAll with announced := true }.Sound := by
  apply sound.mapped Caller.notify rfl Caller.notify_requestId Caller.notify_current
  case follows =>
    intro call caller found
    have old := sound.callers call caller found
    exact follows_notify old.promised old.cut old.expired old.kept
  case used => exact fun _ used => used
  case ended => exact sound.ended
  case announced => exact fun _ => terminated

theorem Sound.terminate (sound : s.Sound) (beyond : s.reading = false) :
    { s with
      terminated := true
      callers := s.callers.map fun (caller : Caller J) =>
        if caller.undecided then { caller with cut := true } else caller }.Sound := by
  apply sound.mapped (fun caller => if caller.undecided then { caller with cut := true } else caller) rfl
  case id =>
    intro caller
    split <;> rfl
  case current =>
    intro caller
    split <;> rfl
  case follows =>
    intro call caller found
    have old := sound.callers call caller found
    by_cases undecided : caller.undecided = true
    · simp only [undecided, if_true]
      constructor
      case promised => exact old.promised
      case cut => exact fun _ => rfl
      case told => exact old.told
      case expired =>
        intro beyond
        exact absurd undecided (caller.decided_of_expired beyond)
      case kept =>
        intro result returned
        exact absurd returned (caller.unresolved undecided result)
    · simp only [undecided]
      constructor
      case promised => exact fun now => absurd now undecided
      case cut => exact fun now => absurd now undecided
      case told => exact old.told
      case expired => exact old.expired
      case kept => exact old.kept
  case used => exact fun _ used => used
  case ended => exact fun _ => beyond
  case announced => exact fun _ => rfl

/-- A broken answer leaves the connection without the identifier, under which no caller has yet to look. -/
theorem Sound.forget (sound : s.Sound) {requestId : Nat}
    (unstored : ∀ caller ∈ s.callers, caller.undecided = true → caller.requestId = requestId →
      s.stored requestId = none) : (s.forget requestId).Sound := by
  have same : ∀ (call : Nat) (caller : Caller J), s.callers[call]? = some caller → caller.undecided = true →
      (s.forget requestId).stored caller.requestId = s.stored caller.requestId := by
    intro call caller found undecided
    rw [stored_forget]
    split
    · rename_i own
      rw [own, unstored caller (List.mem_of_getElem? found) undecided own]
    · rfl
  have callers : (s.forget requestId).callers = s.callers.map id := (List.map_id _).symm
  apply sound.mapped id callers (fun _ => rfl) (fun _ => rfl)
  case follows =>
    intro call caller found
    have old := sound.callers call caller found
    constructor
    case promised => exact fun undecided => (old.promised undecided).trans (same call caller found undecided).symm
    case cut => exact old.cut
    case told =>
      intro waits
      have undecided := caller.undecided_of_waiting waits
      exact ⟨(same call caller found undecided).trans (old.told waits).1, (old.told waits).2⟩
    case expired => exact old.expired
    case kept => exact old.kept
  case used =>
    intro other used
    rcases used with member | present
    · exact .inl (List.mem_of_mem_filter member)
    · rw [stored_forget] at present
      split at present
      · exact absurd rfl present
      · exact .inr present
  case ended => exact sound.ended
  case announced => exact sound.announced

theorem stored_store (s : FastRPCConnection J) (requestId other : Nat) (answer : Answer J) :
    (s.store requestId answer).stored other = if other = requestId then some answer else s.stored other := by
  unfold stored store notifyAll
  simp only [get_insert]
  split <;> rfl

/-- The answer is promised to the caller that has the identifier, and nobody else sees it. -/
theorem Sound.store (sound : s.Sound) {requestId : Nat} (pending : requestId ∈ s.pendingRequests) (answer : Answer J) :
    (s.store requestId answer).Sound := by
  let promise : Caller J → Caller J := fun caller =>
    if caller.requestId = requestId ∧ caller.undecided then { caller with promised := some answer } else caller
  have callers : (s.store requestId answer).callers = s.callers.map fun caller => (promise caller).notify := by
    unfold FastRPCConnection.store notifyAll
    rw [List.map_map]
    rfl
  have id : ∀ caller : Caller J, (promise caller).requestId = caller.requestId := by
    intro caller
    simp only [promise]
    split <;> rfl
  have current : ∀ caller : Caller J, (promise caller).current = caller.current := by
    intro caller
    simp only [promise]
    split <;> rfl
  apply sound.mapped (fun caller => (promise caller).notify) callers
  case id =>
    intro caller
    rw [Caller.notify_requestId, id]
  case current =>
    intro caller
    rw [Caller.notify_current, current]
  case follows =>
    intro call caller found
    have old := sound.callers call caller found
    by_cases own : caller.requestId = requestId ∧ caller.undecided = true
    · simp only [promise]
      rw [if_pos own]
      apply follows_notify
      case promised =>
        intro _
        exact ((stored_store s requestId caller.requestId answer).trans (if_pos own.1)).symm
      case cut => exact old.cut
      case expired =>
        intro beyond
        exact absurd own.2 (caller.decided_of_expired beyond)
      case kept =>
        intro result resolved
        exact absurd resolved (caller.unresolved own.2 result)
    · simp only [promise]
      rw [if_neg own]
      apply follows_notify
      case promised =>
        intro undecided
        rw [stored_store, if_neg fun same => own ⟨same, undecided⟩]
        exact old.promised undecided
      case cut => exact old.cut
      case expired => exact old.expired
      case kept => exact old.kept
  case used =>
    intro other used
    rcases used with member | present
    · exact .inl member
    · rw [stored_store] at present
      split at present
      · rename_i same
        rw [same]
        exact .inl pending
      · exact .inr present
  case ended => exact sound.ended
  case announced => exact sound.announced

theorem Sound.stopReading (sound : s.Sound) : { s with reading := false }.Sound := by
  constructor
  case callers =>
    intro call caller found
    have old := sound.callers call caller found
    exact ⟨old.promised, old.cut, old.told, old.expired, old.kept⟩
  case apart => exact sound.apart
  case used => exact sound.used
  case ended => exact fun _ => rfl
  case announced => exact sound.announced

theorem Sound.processAnswer (sound : s.Sound) {parse : String → Option J} {requestId : Nat} {executionStatus : UInt8}
    {payload : Option String} (onTime : s.OnTime parse (.processAnswer requestId executionStatus payload)) :
    (s.processAnswer parse requestId executionStatus payload).Sound := by
  unfold FastRPCConnection.processAnswer
  by_cases zero : requestId = 0
  · rw [if_pos zero]
    exact sound.stopReading
  · rw [if_neg zero]
    cases payload with
    | none => exact sound.stopReading
    | some payloadBytes =>
      by_cases pending : requestId ∈ s.pendingRequests
      · simp only [pending, if_true]
        cases parsed : parse payloadBytes with
        | some value => exact sound.store pending ⟨executionStatus, value⟩
        | none => exact sound.forget (onTime payloadBytes rfl parsed)
      · simp only [pending, if_false]
        exact sound

theorem Sound.step (sound : s.Sound) {parse : String → Option J} {op : FastRPCOp} (onTime : s.OnTime parse op) :
    (s.step parse op).Sound := by
  unfold FastRPCConnection.step
  cases op with
  | openCall => exact sound.openCall onTime
  | processAnswer requestId executionStatus payload =>
    simp only
    split
    · exact sound.processAnswer onTime
    · exact sound
  | stopReading => exact sound.stopReading
  | terminate =>
    simp only
    split
    · exact sound
    · rename_i beyond
      exact sound.terminate (Bool.eq_false_iff.mpr beyond)
  | announce =>
    simp only
    split
    · rename_i terminated
      exact sound.announce terminated
    · exact sound
  | deadline call =>
    simp only
    cases found : s.callers[call]? with
    | none => exact sound
    | some caller => exact sound.advance parse found _ onTime fun other same => by cases same; rfl
  | register call | send call | wait call | wake call | cleanUp call =>
    simp only
    cases found : s.callers[call]? with
    | none => exact sound
    | some caller => exact sound.advance parse found _ trivial nofun

/-! ## Every interleaving -/

theorem nothingLost_run (parse : String → Option J) (run : List FastRPCOp)
    (onTime : Along (step parse) (OnTime parse) new run) : ∀ s ∈ visited (step parse) new run, s.NothingLost := by
  intro s member
  have sound := along_visited Sound (fun _ _ before allowed => before.step allowed) _ run sound_new onTime s member
  exact sound.nothingLost

end FastRPCConnection

end

namespace FastRPCConnection

/-- The truth values of the exchange format. -/
def parseTruth (payloadBytes : String) : Option Bool :=
  if payloadBytes = "true" then some true else if payloadBytes = "false" then some false else none

/-- One caller gets its answer while it waits, and another one the end of the connection. -/
theorem nothingLost_run_two :
    (visited (step parseTruth) new [.openCall, .register 0, .send 0, .wait 0, .openCall, .register 1, .send 1,
      .wait 1, .processAnswer 1 2 (some "true"), .wake 0, .wake 1, .wait 1, .cleanUp 0, .stopReading, .terminate,
      .announce, .wake 1, .cleanUp 1]).Forall NothingLost := by
  rw [List.forall_iff_forall_mem]
  apply nothingLost_run
  refine ⟨?_, trivial, trivial, trivial, ?_, trivial, trivial, trivial, ?_, trivial, trivial, trivial, trivial,
    trivial, trivial, trivial, trivial, trivial, trivial⟩
  case refine_3 =>
    intro payloadBytes same broken
    cases same
    revert broken
    decide
  all_goals
    unfold OnTime
    decide

/-- The answer is stored between the query and the wait, and the caller waits until its timeout. -/
theorem nothingLost_run_fails :
    ¬ ∀ (J : Type) (parse : String → Option J) (run : List FastRPCOp),
      ∀ s ∈ visited (step parse) new run, s.NothingLost := by
  intro claim
  have kept := claim Bool parseTruth [.openCall, .register 0, .send 0, .processAnswer 1 2 (some "true"), .wait 0,
    .deadline 0, .wake 0, .cleanUp 0] _ (reached_visited _ _ _)
    ⟨1, .returned .timedOut, some ⟨2, true⟩, false⟩ (by decide) .timedOut rfl
  have returned := kept.1 ⟨2, true⟩ rfl
  revert returned
  decide

end FastRPCConnection

end Mantids.RPC
