import Mantids.Library.Runs

/-! The bounded queue between threads (`queue.h`), under any interleaving of its calls, and with a limit that changes
at any time. -/

set_option autoImplicit false

namespace Mantids.Threads.Safe

open Library

section
variable (T : Type)

/-- The queue holds pointers, and nothing keeps a null one out. -/
inductive QueueOperation where
  | push (item : Option T)
  | pop

inductive QueueResult where
  | pushed (ok : Bool)
  | popped (item : Option T)

/-- Where a call is: before it has the lock (at first, or behind a wait that has come to its end), at the condition of
its loop, in the wait, behind the loop with the limit that was read, and behind its last section. -/
inductive QueuePoint where
  | locking (timeout : Bool)
  | testing
  | waiting
  | acting (maxItems : Nat)
  | unlocking (result : QueueResult T)
  | returned (result : QueueResult T)

structure QueueCall where
  operation : QueueOperation T
  tmoutMsecs : UInt32
  point : QueuePoint T

/-- An item that a call has put in, with the limit that it had read and the length right after. -/
structure Insertion where
  call : Nat
  item : Option T
  maxItems : Nat
  length : Nat

/-- The queue with the calls on it, the items that they have put in and taken out, and whether the front of an empty
queue was asked for. -/
structure Queue where
  maxItems : Nat
  mQueue : Option Nat
  queue : List (Option T)
  calls : List (QueueCall T)
  inserted : List (Insertion T)
  removed : List (Nat × Option T)
  undefined : Bool

/-- A wait may end at any time, with a notification or without one, and with a timeout or without one. -/
inductive QueueEvent where
  | call (operation : QueueOperation T) (tmoutMsecs : UInt32)
  | advance (call : Nat)
  | wake (call : Nat) (timeout : Bool)
  | setMaxItems (maxItems : Nat)

end

section
variable {T : Type}

/-- What a call returns when it gives up. -/
def QueueOperation.failure : QueueOperation T → QueueResult T
  | push _ => .pushed false
  | pop => .popped none

namespace Queue

def new : Queue T := ⟨0xFFFFFFFF, none, [], [], [], [], false⟩

def moveTo (s : Queue T) (i : Nat) (call : QueueCall T) (point : QueuePoint T) : Queue T :=
  { s with calls := s.calls.set i { call with point } }

/-- The condition of the loop. -/
def blocked (s : Queue T) : QueueOperation T → Bool
  | .push _ => s.maxItems ≤ s.queue.length
  | .pop => s.queue.isEmpty

/-- What stands behind the loop. -/
def act (s : Queue T) (i : Nat) (call : QueueCall T) (maxItems : Nat) : Queue T :=
  match call.operation with
  | .push item =>
    let inserted := s.inserted ++ [⟨i, item, maxItems, s.queue.length + 1⟩]
    { s with queue := s.queue ++ [item], inserted }.moveTo i call (.unlocking (.pushed true))
  | .pop =>
    match s.queue with
    | [] => { s with undefined := true }
    | r :: rest => { s with queue := rest, removed := s.removed ++ [(i, r)] }.moveTo i call (.unlocking (.popped r))

def advance (s : Queue T) (i : Nat) (call : QueueCall T) : Queue T :=
  match call.point with
  | .locking timeout =>
    if s.mQueue = none then
      { s with mQueue := some i }.moveTo i call (if timeout then .unlocking call.operation.failure else .testing)
    else s
  | .testing =>
    if s.blocked call.operation then
      if call.tmoutMsecs = 0 then s.moveTo i call (.unlocking call.operation.failure)
      else { s with mQueue := none }.moveTo i call .waiting
    else s.moveTo i call (.acting s.maxItems)
  | .acting maxItems => s.act i call maxItems
  | .unlocking result => { s with mQueue := none }.moveTo i call (.returned result)
  | .waiting | .returned _ => s

def step (s : Queue T) : QueueEvent T → Queue T
  | .call operation tmoutMsecs => { s with calls := s.calls ++ [⟨operation, tmoutMsecs, .locking false⟩] }
  | .advance i =>
    match s.calls[i]? with
    | some call => s.advance i call
    | none => s
  | .wake i timeout =>
    match s.calls[i]? with
    | some ⟨operation, tmoutMsecs, .waiting⟩ => s.moveTo i ⟨operation, tmoutMsecs, .waiting⟩ (.locking timeout)
    | _ => s
  | .setMaxItems maxItems => { s with maxItems }

/-! ## A bounded first-in first-out queue -/

/-- A call has neither put anything in nor taken anything out. -/
structure Untouched (s : Queue T) (i : Nat) : Prop where
  inserted : ∀ insertion ∈ s.inserted, insertion.call ≠ i
  removed : ∀ removal ∈ s.removed, removal.1 ≠ i

/-- What a call answers is what it has done. -/
inductive Honest (s : Queue T) (i : Nat) : QueueOperation T → QueueResult T → Prop where
  | pushed (insertion : Insertion T) (member : insertion ∈ s.inserted) (own : insertion.call = i) :
      Honest s i (.push insertion.item) (.pushed true)
  | popped (item : Option T) (member : (i, item) ∈ s.removed) : Honest s i .pop (.popped item)
  | failed (operation : QueueOperation T) (untouched : s.Untouched i) : Honest s i operation operation.failure

/-- What was taken out is the front of what was put in, and the rest is there; each call puts in and takes out at most
one item, and within the limit that it has read. -/
structure Ledger (s : Queue T) : Prop where
  fifo : s.inserted.map (·.item) = s.removed.map (·.2) ++ s.queue
  bounded : ∀ insertion ∈ s.inserted, insertion.length ≤ insertion.maxItems
  pushes : ∀ insertion ∈ s.inserted,
    ∃ call, s.calls[insertion.call]? = some call ∧ call.operation = .push insertion.item
  pops : ∀ removal ∈ s.removed, ∃ call, s.calls[removal.1]? = some call ∧ call.operation = .pop
  insertedOnce : (s.inserted.map (·.call)).Nodup
  removedOnce : (s.removed.map (·.1)).Nodup
  defined : s.undefined = false

structure BoundedFifo (s : Queue T) : Prop extends Ledger s where
  honest : ∀ (i : Nat) (call : QueueCall T) (result : QueueResult T), s.calls[i]? = some call →
    call.point = .returned result → s.Honest i call.operation result

/-! ## Who has the lock -/

def Holds : QueuePoint T → Prop
  | .testing | .acting _ | .unlocking _ => True
  | .locking _ | .waiting | .returned _ => False

/-- Where a call is, with what it has done so far; behind the loop its condition is still false. -/
inductive At (s : Queue T) (i : Nat) : QueueOperation T → QueuePoint T → Prop where
  | locking (operation : QueueOperation T) (timeout : Bool) (untouched : s.Untouched i) :
      At s i operation (.locking timeout)
  | testing (operation : QueueOperation T) (untouched : s.Untouched i) : At s i operation .testing
  | waiting (operation : QueueOperation T) (untouched : s.Untouched i) : At s i operation .waiting
  | inserting (item : Option T) (maxItems : Nat) (untouched : s.Untouched i) (room : s.queue.length < maxItems) :
      At s i (.push item) (.acting maxItems)
  | removing (maxItems : Nat) (untouched : s.Untouched i) (some : s.queue ≠ []) : At s i .pop (.acting maxItems)
  | unlocking (operation : QueueOperation T) (result : QueueResult T) (honest : s.Honest i operation result) :
      At s i operation (.unlocking result)
  | returned (operation : QueueOperation T) (result : QueueResult T) (honest : s.Honest i operation result) :
      At s i operation (.returned result)

structure Inv (s : Queue T) : Prop extends Ledger s where
  held : ∀ (i : Nat) (call : QueueCall T), s.calls[i]? = some call → Holds call.point → s.mQueue = some i
  at_ : ∀ (i : Nat) (call : QueueCall T), s.calls[i]? = some call → s.At i call.operation call.point

/-- Another call may have put something in and taken something out. -/
structure Grows (s s' : Queue T) (i : Nat) : Prop where
  inserted : ∃ more, s'.inserted = s.inserted ++ more ∧ ∀ insertion ∈ more, insertion.call ≠ i
  removed : ∃ more, s'.removed = s.removed ++ more ∧ ∀ removal ∈ more, removal.1 ≠ i

section
variable {s s' : Queue T} {i : Nat} {call : QueueCall T} {point : QueuePoint T}

theorem grows_of_same (inserted : s'.inserted = s.inserted) (removed : s'.removed = s.removed) : Grows s s' i :=
  ⟨⟨[], by rw [inserted, List.append_nil], by simp⟩, ⟨[], by rw [removed, List.append_nil], by simp⟩⟩

theorem Untouched.grow (untouched : s.Untouched i) (grows : Grows s s' i) : s'.Untouched i := by
  obtain ⟨⟨inserted, insertedSame, insertedOther⟩, removed, removedSame, removedOther⟩ := grows
  constructor
  · rw [insertedSame]
    exact List.forall_mem_append.mpr ⟨untouched.inserted, insertedOther⟩
  · rw [removedSame]
    exact List.forall_mem_append.mpr ⟨untouched.removed, removedOther⟩

theorem Honest.grow {operation : QueueOperation T} {result : QueueResult T} (honest : s.Honest i operation result)
    (grows : Grows s s' i) : s'.Honest i operation result := by
  cases honest with
  | pushed insertion member own =>
    obtain ⟨more, same, -⟩ := grows.inserted
    exact .pushed insertion (by rw [same]; exact List.mem_append_left _ member) own
  | popped item member =>
    obtain ⟨more, same, -⟩ := grows.removed
    exact .popped item (by rw [same]; exact List.mem_append_left _ member)
  | failed operation untouched => exact .failed operation (untouched.grow grows)

/-- A call without the lock does not see what the others do to the queue. -/
theorem At.grow {operation : QueueOperation T} (here : s.At i operation point) (grows : Grows s s' i)
    (unseen : s'.queue = s.queue ∨ ¬Holds point) : s'.At i operation point := by
  cases here with
  | locking _ timeout untouched => exact .locking _ timeout (untouched.grow grows)
  | testing _ untouched => exact .testing _ (untouched.grow grows)
  | waiting _ untouched => exact .waiting _ (untouched.grow grows)
  | inserting item maxItems untouched room =>
    have same := unseen.resolve_right fun free => free trivial
    exact .inserting item maxItems (untouched.grow grows) (by rw [same]; exact room)
  | removing maxItems untouched some =>
    have same := unseen.resolve_right fun free => free trivial
    exact .removing maxItems (untouched.grow grows) (by rw [same]; exact some)
  | unlocking _ result honest => exact .unlocking _ result (honest.grow grows)
  | returned _ result honest => exact .returned _ result (honest.grow grows)

/-- Up to the end of its loop a call has done nothing. -/
def Looping : QueuePoint T → Prop
  | .locking _ | .testing | .waiting => True
  | .acting _ | .unlocking _ | .returned _ => False

theorem At.untouched {operation : QueueOperation T} (here : s.At i operation point) (looping : Looping point) :
    s.Untouched i := by
  cases here with
  | locking _ _ untouched => exact untouched
  | testing _ untouched => exact untouched
  | waiting _ untouched => exact untouched
  | inserting | removing | unlocking | returned => exact looping.elim

theorem At.unlocks {operation : QueueOperation T} {result : QueueResult T}
    (here : s.At i operation (.unlocking result)) : s.Honest i operation result := by
  cases here with
  | unlocking _ _ honest => exact honest

theorem At.returns {operation : QueueOperation T} {result : QueueResult T}
    (here : s.At i operation (.returned result)) : s.Honest i operation result := by
  cases here with
  | returned _ _ honest => exact honest

theorem operation_set {j : Nat} (found : s.calls[i]? = some call)
    (calls : s'.calls = s.calls.set i { call with point }) {operation : QueueOperation T}
    (other : ∃ call, s.calls[j]? = some call ∧ call.operation = operation) :
    ∃ call, s'.calls[j]? = some call ∧ call.operation = operation := by
  obtain ⟨old, there, same⟩ := other
  obtain ⟨bound, -⟩ := List.getElem?_eq_some_iff.mp found
  rw [calls, List.getElem?_set]
  split
  case isTrue here =>
    subst here
    cases found.symm.trans there
    exact ⟨_, rfl, same⟩
  case isFalse => exact ⟨old, there, same⟩

/-- A call goes on, and what is not its own stays as it was for the others. -/
theorem inv_of_move (inv : Inv s) (found : s.calls[i]? = some call)
    (calls : s'.calls = s.calls.set i { call with point }) (ledger : Ledger s') (here : s'.At i call.operation point)
    (mine : Holds point → s'.mQueue = some i) (grows : ∀ j, j ≠ i → Grows s s' j)
    (queue : s'.queue = s.queue ∨ s.mQueue = some i)
    (free : s'.mQueue = s.mQueue ∨ s.mQueue = none ∨ s.mQueue = some i) : Inv s' := by
  have unheld (j : Nat) (other : QueueCall T) (different : j ≠ i) (there : s.calls[j]? = some other)
      (owned : s.mQueue = none ∨ s.mQueue = some i) : ¬Holds other.point := by
    intro holds
    have held := inv.held j other there holds
    obtain none | some := owned
    · rw [none] at held
      cases held
    · rw [some] at held
      exact different (Option.some.inj held).symm
  have others (j : Nat) (other : QueueCall T) (there : s'.calls[j]? = some other) :
      j = i ∧ other = { call with point } ∨ j ≠ i ∧ s.calls[j]? = some other := by
    rw [calls, List.getElem?_set] at there
    split at there
    case isTrue same =>
      subst same
      split at there
      case isTrue => exact .inl ⟨rfl, (Option.some.inj there).symm⟩
      case isFalse => cases there
    case isFalse different => exact .inr ⟨fun same => different same.symm, there⟩
  refine { toLedger := ledger, held := fun j other there holds => ?_, at_ := fun j other there => ?_ }
  · obtain ⟨rfl, rfl⟩ | ⟨different, before⟩ := others j other there
    · exact mine holds
    · obtain same | owned := free
      · rw [same]
        exact inv.held j other before holds
      · exact absurd holds (unheld j other different before owned)
  · obtain ⟨rfl, rfl⟩ | ⟨different, before⟩ := others j other there
    · exact here
    · apply (inv.at_ j other before).grow (grows j different)
      exact queue.imp_right fun own => unheld j other different before (.inr own)

/-- A move that leaves the contents alone. -/
theorem inv_of_quiet (inv : Inv s) (found : s.calls[i]? = some call) (mQueue : Option Nat)
    (here : s.At i call.operation point) (mine : Holds point → mQueue = some i)
    (free : mQueue = s.mQueue ∨ s.mQueue = none ∨ s.mQueue = some i) :
    Inv ({ s with mQueue }.moveTo i call point) := by
  have calls : ({ s with mQueue }.moveTo i call point).calls = s.calls.set i { call with point } := rfl
  have grows (j : Nat) : Grows s ({ s with mQueue }.moveTo i call point) j := grows_of_same rfl rfl
  refine inv_of_move inv found calls ?_ (here.grow (grows i) (.inl rfl)) mine (fun j _ => grows j) (.inl rfl) free
  exact
    { inv.toLedger with
      pushes := fun insertion member => operation_set found calls (inv.pushes insertion member)
      pops := fun removal member => operation_set found calls (inv.pops removal member) }

theorem failed_at (untouched : s.Untouched i) (operation : QueueOperation T) :
    s.At i operation (.unlocking operation.failure) :=
  .unlocking operation _ (.failed operation untouched)

theorem nodup_append_single {α : Type} {l : List α} {a : α} (nodup : l.Nodup) (absent : a ∉ l) : (l ++ [a]).Nodup :=
  List.nodup_append.mpr ⟨nodup, List.nodup_singleton a, fun b member c single => by
    rw [List.mem_singleton.mp single]
    exact fun same => absent (same ▸ member)⟩

/-- A push behind its loop, which kept the lock since it found room. -/
theorem inv_inserted (inv : Inv s) (found : s.calls[i]? = some call) (held : s.mQueue = some i) {item : Option T}
    (operation : call.operation = .push item) (untouched : s.Untouched i) {maxItems : Nat}
    (room : s.queue.length < maxItems) :
    Inv (({ s with
      queue := s.queue ++ [item]
      inserted := s.inserted ++ [⟨i, item, maxItems, s.queue.length + 1⟩] } : Queue T).moveTo i call
        (.unlocking (.pushed true))) := by
  generalize after : ({ s with
    queue := s.queue ++ [item]
    inserted := s.inserted ++ [⟨i, item, maxItems, s.queue.length + 1⟩] } : Queue T).moveTo i call
      (.unlocking (.pushed true)) = s'
  have calls : s'.calls = s.calls.set i { call with point := .unlocking (.pushed true) } := after ▸ rfl
  have inserted : s'.inserted = s.inserted ++ [⟨i, item, maxItems, s.queue.length + 1⟩] := after ▸ rfl
  have removed : s'.removed = s.removed := after ▸ rfl
  have queue : s'.queue = s.queue ++ [item] := after ▸ rfl
  have mQueue : s'.mQueue = s.mQueue := after ▸ rfl
  have kept {j : Nat} {kind : QueueOperation T} := @operation_set T s s' i call _ j found calls kind
  have own := kept ⟨call, found, operation⟩
  refine inv_of_move inv found calls ?_ ?_ (fun _ => mQueue.trans held) (fun j different => ?_) (.inr held)
    (.inl mQueue)
  · exact
      { fifo := by
          rw [inserted, removed, queue, List.map_append, inv.fifo, List.append_assoc, List.map_cons, List.map_nil]
        bounded := by
          rw [inserted]
          exact List.forall_mem_append.mpr ⟨inv.bounded, List.forall_mem_singleton.mpr room⟩
        pushes := by
          rw [inserted]
          exact List.forall_mem_append.mpr
            ⟨fun insertion member => kept (inv.pushes insertion member), List.forall_mem_singleton.mpr own⟩
        pops := by
          rw [removed]
          exact fun removal member => kept (inv.pops removal member)
        insertedOnce := by
          rw [inserted, List.map_append]
          apply nodup_append_single inv.insertedOnce
          intro member
          obtain ⟨insertion, inside, same⟩ := List.mem_map.mp member
          exact untouched.inserted insertion inside same
        removedOnce := by
          rw [removed]
          exact inv.removedOnce
        defined := after ▸ inv.defined }
  · rw [operation]
    have last : (⟨i, item, maxItems, s.queue.length + 1⟩ : Insertion T) ∈ s'.inserted := by
      rw [inserted]
      exact List.mem_append_right _ (List.mem_singleton.mpr rfl)
    exact .unlocking _ _ (.pushed _ last rfl)
  · refine ⟨⟨_, inserted, ?_⟩, [], by rw [removed, List.append_nil], by simp⟩
    exact List.forall_mem_singleton.mpr fun same => different same.symm

/-- A pop behind its loop. -/
theorem inv_removed (inv : Inv s) (found : s.calls[i]? = some call) (held : s.mQueue = some i)
    (operation : call.operation = .pop) (untouched : s.Untouched i) {r : Option T} {rest : List (Option T)}
    (contents : s.queue = r :: rest) :
    Inv (({ s with queue := rest, removed := s.removed ++ [(i, r)] } : Queue T).moveTo i call
      (.unlocking (.popped r))) := by
  generalize after : ({ s with queue := rest, removed := s.removed ++ [(i, r)] } : Queue T).moveTo i call
    (.unlocking (.popped r)) = s'
  have calls : s'.calls = s.calls.set i { call with point := .unlocking (.popped r) } := after ▸ rfl
  have inserted : s'.inserted = s.inserted := after ▸ rfl
  have removed : s'.removed = s.removed ++ [(i, r)] := after ▸ rfl
  have queue : s'.queue = rest := after ▸ rfl
  have mQueue : s'.mQueue = s.mQueue := after ▸ rfl
  have kept {j : Nat} {kind : QueueOperation T} := @operation_set T s s' i call _ j found calls kind
  have own := kept ⟨call, found, operation⟩
  refine inv_of_move inv found calls ?_ ?_ (fun _ => mQueue.trans held) (fun j different => ?_) (.inr held)
    (.inl mQueue)
  · exact
      { fifo := by
          rw [inserted, removed, queue, inv.fifo, contents, List.map_append, List.append_assoc, List.map_cons,
            List.map_nil, List.singleton_append]
        bounded := by
          rw [inserted]
          exact inv.bounded
        pushes := by
          rw [inserted]
          exact fun insertion member => kept (inv.pushes insertion member)
        pops := by
          rw [removed]
          exact List.forall_mem_append.mpr
            ⟨fun removal member => kept (inv.pops removal member), List.forall_mem_singleton.mpr own⟩
        insertedOnce := by
          rw [inserted]
          exact inv.insertedOnce
        removedOnce := by
          rw [removed, List.map_append]
          apply nodup_append_single inv.removedOnce
          intro member
          obtain ⟨removal, inside, same⟩ := List.mem_map.mp member
          exact untouched.removed removal inside same
        defined := after ▸ inv.defined }
  · rw [operation]
    have last : (i, r) ∈ s'.removed := by
      rw [removed]
      exact List.mem_append_right _ (List.mem_singleton.mpr rfl)
    exact .unlocking _ _ (.popped _ last)
  · refine ⟨⟨[], by rw [inserted, List.append_nil], by simp⟩, _, removed, ?_⟩
    exact List.forall_mem_singleton.mpr fun same => different same.symm

theorem inv_act (inv : Inv s) {maxItems : Nat} (found : s.calls[i]? = some call)
    (acting : call.point = .acting maxItems) : Inv (s.act i call maxItems) := by
  have held := inv.held i call found (by rw [acting]; trivial)
  have here := inv.at_ i call found
  rw [acting] at here
  unfold act
  generalize operation : call.operation = kind at here
  cases here with
  | inserting item _ untouched room => exact inv_inserted inv found held operation untouched room
  | removing _ untouched some =>
    dsimp only
    cases contents : s.queue with
    | nil => exact absurd contents some
    | cons r rest => exact inv_removed inv found held operation untouched contents

theorem inv_advance (inv : Inv s) (found : s.calls[i]? = some call) : Inv (s.advance i call) := by
  have here := inv.at_ i call found
  have held := inv.held i call found
  unfold advance
  generalize at_ : call.point = point at here held
  cases point with
  | locking timeout =>
    dsimp only
    split
    case isFalse => exact inv
    case isTrue free =>
      have untouched := here.untouched trivial
      cases timeout with
      | false => exact inv_of_quiet inv found (some i) (.testing _ untouched) (fun _ => rfl) (.inr (.inl free))
      | true => exact inv_of_quiet inv found (some i) (failed_at untouched _) (fun _ => rfl) (.inr (.inl free))
  | testing =>
    have own := held trivial
    have untouched := here.untouched trivial
    dsimp only
    split
    case isTrue blocked =>
      split
      case isTrue => exact inv_of_quiet inv found s.mQueue (failed_at untouched _) (fun _ => own) (.inl rfl)
      case isFalse =>
        exact inv_of_quiet inv found none (.waiting _ untouched) (fun holds => absurd holds id) (.inr (.inr own))
    case isFalse free =>
      refine inv_of_quiet inv found s.mQueue ?_ (fun _ => own) (.inl rfl)
      cases operation : call.operation with
      | push item =>
        rw [operation] at free
        exact .inserting item s.maxItems untouched (by simpa [blocked] using free)
      | pop =>
        rw [operation] at free
        exact .removing s.maxItems untouched (by simpa [blocked] using free)
  | waiting => exact inv
  | acting maxItems => exact inv_act inv found at_
  | unlocking result =>
    have own := held trivial
    exact inv_of_quiet inv found none (.returned _ _ here.unlocks) (fun holds => absurd holds id) (.inr (.inr own))
  | returned result => exact inv

theorem inv_call (inv : Inv s) (operation : QueueOperation T) (tmoutMsecs : UInt32) :
    Inv (s.step (.call operation tmoutMsecs)) := by
  have kept {j : Nat} {kind : QueueOperation T} (other : ∃ call, s.calls[j]? = some call ∧ call.operation = kind) :
      ∃ call, (s.step (.call operation tmoutMsecs)).calls[j]? = some call ∧ call.operation = kind := by
    obtain ⟨call, there, same⟩ := other
    obtain ⟨bound, -⟩ := List.getElem?_eq_some_iff.mp there
    exact ⟨call, (List.getElem?_append_left bound).trans there, same⟩
  have earlier {j : Nat} {kind : QueueOperation T} (other : ∃ call, s.calls[j]? = some call ∧ call.operation = kind) :
      j ≠ s.calls.length := by
    obtain ⟨call, there, -⟩ := other
    obtain ⟨bound, -⟩ := List.getElem?_eq_some_iff.mp there
    omega
  have cases_ (j : Nat) (call : QueueCall T) (there : (s.step (.call operation tmoutMsecs)).calls[j]? = some call) :
      s.calls[j]? = some call ∨ j = s.calls.length ∧ call = ⟨operation, tmoutMsecs, .locking false⟩ := by
    rw [step, List.getElem?_append] at there
    split at there
    case isTrue => exact .inl there
    case isFalse behind =>
      rw [List.getElem?_singleton] at there
      split at there
      case isTrue zero => exact .inr ⟨by omega, (Option.some.inj there).symm⟩
      case isFalse => cases there
  have grows (j : Nat) : Grows s (s.step (.call operation tmoutMsecs)) j := grows_of_same rfl rfl
  exact
    { inv.toLedger with
      pushes := fun insertion member => kept (inv.pushes insertion member)
      pops := fun removal member => kept (inv.pops removal member)
      held := by
        intro j call there holds
        obtain before | ⟨-, rfl⟩ := cases_ j call there
        · exact inv.held j call before holds
        · exact absurd holds id
      at_ := by
        intro j call there
        obtain before | ⟨rfl, rfl⟩ := cases_ j call there
        · exact (inv.at_ j call before).grow (grows j) (.inl rfl)
        · refine .locking _ _ ⟨fun insertion member => ?_, fun removal member => ?_⟩
          · exact earlier (inv.pushes insertion member)
          · exact earlier (inv.pops removal member) }

theorem inv_step (inv : Inv s) (event : QueueEvent T) : Inv (s.step event) := by
  cases event with
  | call operation tmoutMsecs => exact inv_call inv operation tmoutMsecs
  | advance i =>
    rw [step]
    split
    case h_1 call found => exact inv_advance inv found
    case h_2 => exact inv
  | wake i timeout =>
    rw [step]
    split
    case h_1 operation tmoutMsecs found =>
      have untouched := (inv.at_ i _ found).untouched trivial
      exact inv_of_quiet inv found s.mQueue (.locking _ timeout untouched) (fun holds => absurd holds id) (.inl rfl)
    case h_2 => exact inv
  | setMaxItems maxItems =>
    have grows (j : Nat) : Grows s (s.step (.setMaxItems maxItems)) j := grows_of_same rfl rfl
    exact
      { inv.toLedger with
        held := inv.held
        at_ := fun j call there => (inv.at_ j call there).grow (grows j) (.inl rfl) }

theorem inv_new : Inv (new : Queue T) :=
  { fifo := rfl
    bounded := by simp [new]
    pushes := by simp [new]
    pops := by simp [new]
    insertedOnce := List.nodup_nil
    removedOnce := List.nodup_nil
    defined := rfl
    held := by simp [new]
    at_ := by simp [new] }

end

/-- Whatever the calls, their timeouts, the limits and the schedule: a bounded queue, first in, first out. -/
theorem boundedFifo (events : List (QueueEvent T)) : BoundedFifo (reached step new events) := by
  have inv := invariant_reached Inv (fun s event inv => inv_step inv event) new events inv_new
  refine { toLedger := inv.toLedger, honest := fun i call result found returned => ?_ }
  have here := inv.at_ i call found
  rw [returned] at here
  exact here.returns

end Queue

end

end Mantids.Threads.Safe
