import Mantids.Network.AcceptorAccounting

/-! The acceptor with the sockets of its clients (`acceptor_thread.cpp`) and its destructor.
A client's thread changes its socket without the mutex. -/

set_option autoImplicit false

namespace Mantids.Network

open Library Memory

/-- What `clientSocket` points to. -/
inductive ClientSocket where
  | attached
  /-- A callback that will answer false has it, and may have deleted it. -/
  | taken
  /-- `nullptr`, the callback is over. -/
  | detached
  /-- The callback is over, and the socket is still the thread's. -/
  | kept
  deriving DecidableEq

def ClientSocket.isStoppable : ClientSocket → Bool
  | attached | kept => true
  | taken | detached => false

inductive Destructor where
  | notCalled
  /-- Before the lock of the walk. -/
  | finalizing
  /-- Under the lock, with the threads that have still to be stopped. -/
  | walking (rest : List Nat)
  /-- In `cond_clients_empty.wait`. -/
  | waiting
  | returned
  deriving DecidableEq

/-- The threads are known by their address. -/
structure AcceptorLife where
  acceptor : MultiThreaded
  sockets : Table Nat ClientSocket
  destructor : Destructor
  /-- The threads put into the list, and those taken out and deleted. -/
  introduced : List Nat
  finalised : List Nat
  /-- `stopSocket` was called without a socket. -/
  misapplied : Bool

inductive AcceptorEvent where
  /-- A section under `mutex_clients`. -/
  | locked (op : MultiThreadedOp)
  | takes (address : Nat)
  /-- The end of `postInitConnection`, with the answers of the callbacks that are set. -/
  | postInitConnection (address : Nat) (initialized : Bool) (callbackOnConnect callbackOnInitFail : Option Bool)
  | walk
  | stopSocket
  | returns

/-- Whether the thread still has its socket afterwards. -/
def postInitConnection (initialized : Bool) (callbackOnConnect callbackOnInitFail : Option Bool) : Bool :=
  if initialized then callbackOnConnect.getD true else callbackOnInitFail.getD true

namespace AcceptorLife

def new (maxConnectionsPerIP maxConcurrentClients : Fin (2 ^ 32)) : AcceptorLife where
  acceptor := .new maxConnectionsPerIP maxConcurrentClients
  sockets := ∅
  destructor := .notCalled
  introduced := []
  finalised := []
  misapplied := false

def listed (s : AcceptorLife) : List Nat := s.acceptor.threadList.map (·.address)

/-- Those a section has put into the list. -/
def newcomers (s : AcceptorLife) (op : MultiThreadedOp) : List Nat :=
  ((s.acceptor.step op).threadList.drop s.acceptor.threadList.length).map (·.address)

/-- The last thing a client's thread does, once its callback is over. -/
def finalizeThreadElement (s : AcceptorLife) (address : Nat) : AcceptorLife :=
  match s.sockets.get address with
  | some .detached | some .kept =>
    { s with
      acceptor := s.acceptor.finalizeThreadElement address
      sockets := s.sockets.erase address
      finalised := address :: s.finalised }
  | _ => s

/-- The mutex is free. -/
def locked (s : AcceptorLife) (op : MultiThreadedOp) : AcceptorLife :=
  match op with
  | .finalizeThreadElement address => s.finalizeThreadElement address
  | .finalize => { s with acceptor := s.acceptor.step .finalize, destructor := .finalizing }
  | op =>
    { s with
      acceptor := s.acceptor.step op
      sockets := (s.newcomers op).foldl (fun sockets address => sockets.insert address .attached) s.sockets
      introduced := s.newcomers op ++ s.introduced }

def free (s : AcceptorLife) (op : MultiThreadedOp) : Bool :=
  match s.destructor, op with
  | .walking _, _ | .returned, _ => false
  | .notCalled, _ => true
  | _, .finalize => false
  | _, _ => true

def stopSocket (s : AcceptorLife) : AcceptorLife :=
  match s.destructor with
  | .walking [] => { s with destructor := .waiting }
  | .walking (address :: rest) =>
    { s with
      destructor := .walking rest
      misapplied := s.misapplied || !((s.sockets.get address).any ClientSocket.isStoppable) }
  | _ => s

def step (s : AcceptorLife) : AcceptorEvent → AcceptorLife
  | .locked op => if s.free op then s.locked op else s
  | .takes address =>
    if s.sockets.get address = some .attached then { s with sockets := s.sockets.insert address .taken } else s
  | .postInitConnection address initialized callbackOnConnect callbackOnInitFail =>
    match s.sockets.get address, Mantids.Network.postInitConnection initialized callbackOnConnect callbackOnInitFail with
    | some .attached, true => { s with sockets := s.sockets.insert address .kept }
    | some .attached, false | some .taken, false => { s with sockets := s.sockets.insert address .detached }
    | _, _ => s
  | .walk => if s.destructor = .finalizing then { s with destructor := .walking s.listed } else s
  | .stopSocket => s.stopSocket
  | .returns => if s.destructor = .waiting ∧ s.acceptor.threadList = [] then { s with destructor := .returned } else s

/-- No socket is stopped that the thread no longer has, each thread is finalised once for each time
it was put into the list, and the destructor returns with an empty list. -/
structure Safe (s : AcceptorLife) : Prop where
  applied : s.misapplied = false
  once : ∀ address, s.introduced.count address = s.finalised.count address + s.listed.count address
  distinct : s.listed.Nodup
  returned : s.destructor = .returned → s.acceptor.threadList = []

/-- The walk begins when every listed thread has its socket, and no callback takes one away that the walk has
still to come to. -/
def Undisturbed (s : AcceptorLife) : AcceptorEvent → Prop
  | .walk => ∀ address ∈ s.listed, ∀ socket ∈ s.sockets.get address, socket.isStoppable = true
  | .takes address => ∀ rest, s.destructor = .walking rest → address ∉ rest
  | .postInitConnection address initialized callbackOnConnect callbackOnInitFail =>
    Mantids.Network.postInitConnection initialized callbackOnConnect callbackOnInitFail = false →
      ∀ rest, s.destructor = .walking rest → address ∉ rest
  | _ => True

end AcceptorLife

/-! ## The list of threads -/

namespace MultiThreaded

section
variable {s : MultiThreaded}

theorem threadList_decremented (ipAddr : Bytes) : (s.decremented ipAddr).threadList = s.threadList := by
  unfold decremented
  split
  · rfl
  · rfl

theorem threadList_introduce (client : SAThread) : s.threadList <+: (s.introduce client).threadList := by
  unfold introduce
  split
  · exact List.prefix_refl _
  · dsimp only
    split
    · rw [threadList_decremented]
    · exact List.prefix_append _ _

theorem threadList_processClient (client : SAThread) : s.threadList <+: (s.processClient client).threadList := by
  unfold processClient
  split
  · exact List.prefix_refl _
  · exact threadList_introduce client

theorem threadList_wakes (address : Nat) (timeout : Bool) : s.threadList <+: (s.wakes address timeout).threadList := by
  unfold wakes
  split
  · exact List.prefix_refl _
  · dsimp only
    split
    · exact List.prefix_refl _
    · exact @threadList_processClient { s with waiting := s.waiting.filter (·.address ≠ address) } _

/-- Only a finalised thread leaves the list. -/
theorem threadList_step (op : MultiThreadedOp) (stays : ∀ address, op ≠ .finalizeThreadElement address) :
    s.threadList <+: (s.step op).threadList := by
  cases op with
  | processClient client =>
    rw [step]
    split
    · exact List.prefix_refl _
    · exact threadList_processClient client
  | wakes address timeout => exact threadList_wakes address timeout
  | finalizeThreadElement address => exact absurd rfl (stays address)
  | setMaxConnectionsPerIP value => exact List.prefix_refl _
  | setMaxConcurrentClients value => exact List.prefix_refl _
  | finalize => exact List.prefix_refl _

theorem threadList_finalizeThreadElement (address : Nat) :
    (s.finalizeThreadElement address).threadList = s.threadList.filter (·.address ≠ address) := by
  unfold finalizeThreadElement
  split
  · rename_i missing
    rw [List.find?_eq_none] at missing
    refine (List.filter_eq_self.mpr fun thread member => ?_).symm
    simpa using missing thread member
  · rw [threadList_decremented]

end

end MultiThreaded

namespace AcceptorLife

/-! ## The invariant -/

/-- Next to what is safe, the sockets are those of the listed threads, and the walk will find them. -/
structure Inv (s : AcceptorLife) : Prop extends Safe s where
  acceptor : s.acceptor.Inv
  sockets : ∀ address, (s.sockets.get address).isSome = true ↔ address ∈ s.listed
  walk : ∀ rest, s.destructor = .walking rest →
    ∀ address ∈ rest, ∃ socket, s.sockets.get address = some socket ∧ socket.isStoppable = true

theorem inv_new (maxConnectionsPerIP maxConcurrentClients : Fin (2 ^ 32)) :
    Inv (new maxConnectionsPerIP maxConcurrentClients) where
  applied := rfl
  once := fun _ => rfl
  distinct := List.nodup_nil
  returned := fun impossible => by cases impossible
  acceptor := MultiThreaded.inv_new maxConnectionsPerIP maxConcurrentClients
  sockets := fun address => by simp [new, listed, MultiThreaded.new]
  walk := fun _ impossible => by cases impossible

section
variable {s : AcceptorLife}

theorem distinct_of_inv (inv : s.acceptor.Inv) : s.listed.Nodup := by
  have addresses := inv.addresses
  rw [MultiThreaded.live, List.map_append] at addresses
  exact addresses.of_append_left

theorem get_attached (sockets : Table Nat ClientSocket) (newcomers : List Nat) (address : Nat) :
    Table.get (newcomers.foldl (fun sockets address => sockets.insert address ClientSocket.attached) sockets) address =
      if address ∈ newcomers then some .attached else sockets.get address := by
  induction newcomers generalizing sockets with
  | nil => simp
  | cons first rest ih =>
    rw [List.foldl_cons, ih, get_insert]
    by_cases later : address ∈ rest
    · simp [later]
    · by_cases same : address = first
      · simp [same]
      · simp [later, same]

/-- A section that may put a thread into the list. -/
theorem Inv.introduces (inv : Inv s) {op : MultiThreadedOp} (stays : ∀ address, op ≠ .finalizeThreadElement address)
    (free : ∀ rest, s.destructor ≠ .walking rest) (alive : s.destructor ≠ .returned) :
    Inv { s with
      acceptor := s.acceptor.step op
      sockets := (s.newcomers op).foldl (fun sockets address => sockets.insert address .attached) s.sockets
      introduced := s.newcomers op ++ s.introduced } := by
  have acceptor := (MultiThreaded.keeps_step inv.acceptor op).inv
  have whole : s.listed ++ s.newcomers op = ((s.acceptor.step op).threadList.map (·.address)) := by
    rw [listed, newcomers, ← List.map_append,
      List.prefix_iff_eq_append.mp (MultiThreaded.threadList_step op stays)]
  refine ⟨⟨?applied, ?once, ?distinct, ?returned⟩, ?acceptor, ?sockets, ?walk⟩
  case applied => exact inv.applied
  case once =>
    intro address
    have before := inv.once address
    rw [listed, ← whole, List.count_append, List.count_append]
    dsimp only
    omega
  case distinct => exact distinct_of_inv acceptor
  case returned => exact fun returned => absurd returned alive
  case acceptor => exact acceptor
  case sockets =>
    intro address
    rw [get_attached, listed, ← whole, List.mem_append]
    split
    · rename_i new
      exact iff_of_true rfl (.inr new)
    · rename_i old
      rw [inv.sockets, or_iff_left old]
  case walk => exact fun rest walking => absurd walking (free rest)

theorem Inv.finalizeThreadElement (inv : Inv s) (address : Nat)
    (free : ∀ rest, s.destructor ≠ .walking rest) : Inv (s.finalizeThreadElement address) := by
  have acceptor := (MultiThreaded.keeps_step inv.acceptor (.finalizeThreadElement address)).inv
  have finalises : (s.sockets.get address).isSome = true → Inv
      { s with
        acceptor := s.acceptor.finalizeThreadElement address
        sockets := s.sockets.erase address
        finalised := address :: s.finalised } := by
    intro known
    have here := (inv.sockets address).mp known
    have left : (s.acceptor.finalizeThreadElement address).threadList.map (·.address) =
        s.listed.filter (· ≠ address) := by
      rw [MultiThreaded.threadList_finalizeThreadElement, listed, List.filter_map]
      rfl
    refine ⟨⟨?applied, ?once, ?distinct, ?returned⟩, ?acceptor, ?sockets, ?walk⟩
    case applied => exact inv.applied
    case once =>
      intro other
      have before := inv.once other
      rw [listed, left, List.count_cons]
      by_cases same : other = address
      · -- it was in the list once
        subst same
        have one := List.count_eq_one_of_mem inv.distinct here
        have gone : (s.listed.filter (· ≠ other)).count other = 0 := by
          simp [List.count_eq_zero]
        rw [gone]
        simp only [beq_self_eq_true, if_true]
        omega
      · have kept : (s.listed.filter (· ≠ address)).count other = s.listed.count other := by
          apply List.count_filter
          exact decide_eq_true same
        rw [kept, if_neg (by simpa using Ne.symm same)]
        omega
    case distinct => exact distinct_of_inv acceptor
    case returned =>
      intro returned
      rw [MultiThreaded.threadList_finalizeThreadElement, inv.returned returned]
      rfl
    case acceptor => exact acceptor
    case sockets =>
      intro other
      rw [get_erase, listed, left, List.mem_filter]
      by_cases same : other = address
      · simp [same]
      · rw [if_neg same, inv.sockets]
        simp [same]
    case walk => exact fun rest walking => absurd walking (free rest)
  unfold AcceptorLife.finalizeThreadElement
  split
  · rename_i found
    exact finalises (by rw [found]; rfl)
  · rename_i found
    exact finalises (by rw [found]; rfl)
  · exact inv

/-- A client's thread changes its own socket, which the walk has passed or stops later all the same. -/
theorem Inv.changes (inv : Inv s) {address : Nat} {old new : ClientSocket} (found : s.sockets.get address = some old)
    (undisturbed : new.isStoppable = false → ∀ rest, s.destructor = .walking rest → address ∉ rest) :
    Inv { s with sockets := s.sockets.insert address new } := by
  refine ⟨⟨?applied, ?once, ?distinct, ?returned⟩, ?acceptor, ?sockets, ?walk⟩
  case applied => exact inv.applied
  case once => exact inv.once
  case distinct => exact inv.distinct
  case returned => exact inv.returned
  case acceptor => exact inv.acceptor
  case sockets =>
    intro other
    rw [get_insert]
    split
    · rename_i same
      subst same
      have listed := (inv.sockets other).mp (by rw [found]; rfl)
      exact iff_of_true rfl listed
    · exact inv.sockets other
  case walk =>
    intro rest walking other member
    have before := inv.walk rest walking other member
    rw [get_insert]
    split
    · rename_i same
      refine ⟨new, rfl, ?_⟩
      by_contra gone
      exact undisturbed (Bool.eq_false_iff.mpr gone) rest walking (same ▸ member)
    · exact before

theorem Inv.locked (inv : Inv s) (op : MultiThreadedOp) (free : s.free op = true) : Inv (s.locked op) := by
  have still : ∀ rest, s.destructor ≠ .walking rest := by
    intro rest walking
    simp [AcceptorLife.free, walking] at free
  have alive : s.destructor ≠ .returned := by
    intro returned
    simp [AcceptorLife.free, returned] at free
  cases op with
  | finalizeThreadElement address => exact inv.finalizeThreadElement address still
  | finalize =>
    refine ⟨⟨?applied, ?once, ?distinct, ?returned⟩, ?acceptor, ?sockets, ?walk⟩
    case applied => exact inv.applied
    case once => exact inv.once
    case distinct => exact inv.distinct
    case returned => exact fun impossible => by cases impossible
    case acceptor => exact (MultiThreaded.keeps_step inv.acceptor .finalize).inv
    case sockets => exact inv.sockets
    case walk => exact fun _ impossible => by cases impossible
  | processClient client => exact inv.introduces (fun _ impossible => by cases impossible) still alive
  | wakes address timeout => exact inv.introduces (fun _ impossible => by cases impossible) still alive
  | setMaxConnectionsPerIP value => exact inv.introduces (fun _ impossible => by cases impossible) still alive
  | setMaxConcurrentClients value => exact inv.introduces (fun _ impossible => by cases impossible) still alive

/-- A stage of the destructor that leaves all else as it is. -/
theorem Inv.moves (inv : Inv s) {stage : Destructor} (returned : stage = .returned → s.acceptor.threadList = [])
    (walk : ∀ rest, stage = .walking rest →
      ∀ address ∈ rest, ∃ socket, s.sockets.get address = some socket ∧ socket.isStoppable = true) :
    Inv { s with destructor := stage } where
  applied := inv.applied
  once := inv.once
  distinct := inv.distinct
  returned := returned
  acceptor := inv.acceptor
  sockets := inv.sockets
  walk := walk

theorem Inv.stopSocket (inv : Inv s) : Inv s.stopSocket := by
  unfold AcceptorLife.stopSocket
  split
  · exact inv.moves (fun impossible => by cases impossible) (fun _ impossible => by cases impossible)
  · rename_i address rest walking
    have found := inv.walk _ walking
    obtain ⟨socket, here, stoppable⟩ := found address List.mem_cons_self
    have applied : (s.misapplied || !((s.sockets.get address).any ClientSocket.isStoppable)) = s.misapplied := by
      rw [here, Option.any_some, stoppable, Bool.not_true, Bool.or_false]
    rw [applied]
    apply inv.moves
    · exact fun impossible => by cases impossible
    · intro others same other member
      cases same
      exact found other (List.mem_cons_of_mem _ member)
  · exact inv

theorem Inv.step (inv : Inv s) {event : AcceptorEvent} (undisturbed : s.Undisturbed event) : Inv (s.step event) := by
  cases event with
  | locked op =>
    rw [AcceptorLife.step]
    split
    · rename_i free
      exact inv.locked op free
    · exact inv
  | takes address =>
    rw [AcceptorLife.step]
    split
    · rename_i attached
      exact inv.changes attached fun _ => undisturbed
    · exact inv
  | postInitConnection address initialized callbackOnConnect callbackOnInitFail =>
    rw [AcceptorLife.step]
    split
    · rename_i attached _
      exact inv.changes attached fun impossible => by cases impossible
    · rename_i attached gone
      exact inv.changes attached fun _ => undisturbed gone
    · rename_i taken gone
      exact inv.changes taken fun _ => undisturbed gone
    · exact inv
  | walk =>
    rw [AcceptorLife.step]
    split
    · apply inv.moves
      · exact fun impossible => by cases impossible
      · intro rest same address member
        cases same
        obtain ⟨socket, found⟩ := Option.isSome_iff_exists.mp ((inv.sockets address).mpr member)
        exact ⟨socket, found, undisturbed address member socket found⟩
    · exact inv
  | stopSocket => exact inv.stopSocket
  | returns =>
    rw [AcceptorLife.step]
    split
    · rename_i done
      exact inv.moves (fun _ => done.2) (fun _ impossible => by cases impossible)
    · exact inv

end

/-! ## Every interleaving -/

theorem shutdown_safe (maxConnectionsPerIP maxConcurrentClients : Fin (2 ^ 32)) (run : List AcceptorEvent)
    (undisturbed : Along step Undisturbed (new maxConnectionsPerIP maxConcurrentClients) run) :
    ∀ s ∈ visited step (new maxConnectionsPerIP maxConcurrentClients) run, s.Safe := by
  intro s member
  exact (along_visited Inv (fun _ _ inv undisturbed => inv.step undisturbed) _ run (inv_new _ _) undisturbed s
    member).toSafe

/-- One client whose callback answers false has been finalised before the walk, and the walk stops another one. -/
theorem shutdown_safe_detached : List.Forall Safe (visited step (new 16 4096)
    [.locked (.processClient ⟨1, []⟩), .locked (.processClient ⟨2, []⟩), .takes 1,
      .postInitConnection 1 true (some false) none, .locked (.finalizeThreadElement 1), .locked .finalize, .walk,
      .stopSocket, .stopSocket, .postInitConnection 2 true (some true) none, .locked (.finalizeThreadElement 2),
      .returns]) := by
  rw [List.forall_iff_forall_mem]
  apply shutdown_safe
  refine ⟨trivial, trivial, ?_, ?_, trivial, trivial, ?_, trivial, trivial, ?_, trivial, trivial, trivial⟩
  · exact fun _ impossible => by cases impossible
  · exact fun _ _ impossible => by cases impossible
  · intro address member socket found
    have same : address = 2 := List.mem_singleton.mp member
    subst same
    have attached : socket = .attached := (Option.some.inj found).symm
    rw [attached]
    rfl
  · exact fun impossible => by cases impossible

/-- A client whose callback has answered false is stopped before it is finalised. -/
theorem shutdown_misapplied : ¬∀ maxConnectionsPerIP maxConcurrentClients run,
    ∀ s ∈ visited step (new maxConnectionsPerIP maxConcurrentClients) run, s.Safe := by
  intro all
  have last := all 16 4096 [.locked (.processClient ⟨1, []⟩), .takes 1, .postInitConnection 1 true (some false) none,
    .locked .finalize, .walk, .stopSocket] _ (reached_visited step _ _)
  have applied := last.applied
  revert applied
  decide

end AcceptorLife

end Mantids.Network
