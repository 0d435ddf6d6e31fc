import Mantids.Library.Condition
import Mantids.Threads.PoolTasks

/-! The notifications of the pool's `cond_insertedElement` next to its sections, and what
a pool that was stopped waits for. -/

set_option autoImplicit false

namespace Mantids.Threads

open Library

inductive PoolEvent where
  /-- A section under `mutexQueues`. -/
  | locked (op : ThreadPoolOp)
  /-- The `notify_all` of `stop`. -/
  | notifyAll
  /-- The `notify_one` of `pushTask`, with the worker that gets it. -/
  | notifyOne (worker : Nat)

structure NotifiedPool where
  pool : ThreadPool
  insertedElement : Condition Nat

namespace ThreadPool

/-- No queue has elements. -/
def Drained (s : ThreadPool) : Prop := ∀ tasks ∈ s.queues, tasks = []

def Full (s : ThreadPool) (queue : Nat) : Prop :=
  ∃ tasks, s.queues[queue]? = some tasks ∧ s.tasksByQueueLimit < tasks.length

/-- One more task makes the queue full. -/
def Fills (s : ThreadPool) (queue : Nat) : Prop :=
  ∃ tasks, s.queues[queue]? = some tasks ∧ s.tasksByQueueLimit ≤ tasks.length

def WaitsOn (s : ThreadPool) (call queue : Nat) : Prop := ∃ push, s.pushing.get call = some push ∧ push.queue = queue

/-- A worker has not exited. -/
def Manned (s : ThreadPool) : Prop := ∃ worker ∈ s.workers, worker ≠ .exited

/-- The workers in `cond_insertedElement.wait`. -/
def idle (s : ThreadPool) : List Nat := (List.range s.workers.length).filter fun worker => s.workers[worker]? = some .waiting

/-- There is a task in the chosen queue, if there is one at all. -/
def choosable (s : ThreadPool) (queue : Nat) : Bool :=
  match s.queues[queue]? with
  | some (_ :: _) => true
  | _ => s.queues.all List.isEmpty

/-- A null task, which ends the worker that takes it, does not end the last one while somebody waits. -/
def Retains (s : ThreadPool) (worker queue : Nat) : Prop :=
  ∀ job rest, s.queues[queue]? = some (job :: rest) → job.task.isNull = true →
    (∃ other state, other ≠ worker ∧ s.workers[other]? = some state ∧ state ≠ .exited) ∨
      ∀ call queue, ¬s.WaitsOn call queue

/-- Once no worker is left, no pusher begins to wait, and none fills a queue that another one waits on. -/
def Staffed (s : ThreadPool) : ThreadPoolOp → Prop
  | .pushTask _ currentQueue _ =>
    s.terminate = false → s.Manned ∨ ¬s.Fills currentQueue ∨
      ¬s.Full currentQueue ∧ ∀ call, ¬s.WaitsOn call currentQueue
  | .pushWakes call =>
    s.Manned ∨ ∀ queue, s.WaitsOn call queue → s.Fills queue → ∀ other, s.WaitsOn other queue → other = call
  | .popTask worker queue | .popWakes worker queue => s.Retains worker queue
  | _ => True

end ThreadPool

namespace NotifiedPool

def new (threadsCount taskQueues tasksByQueueLimit : Nat) : NotifiedPool :=
  ⟨.new threadsCount taskQueues tasksByQueueLimit, .new⟩

/-- What a section leaves to notify, and who has come out of the wait for it. -/
def signal (s : NotifiedPool) : ThreadPoolOp → Condition Nat
  | .stop => s.insertedElement.announceAll
  | .popWakes worker queue => if s.pool.choosable queue then s.insertedElement.wake worker else s.insertedElement
  | op =>
    if (s.pool.step op).accepted.length = s.pool.accepted.length then s.insertedElement
    else s.insertedElement.announceOne

def step (s : NotifiedPool) (event : PoolEvent) : NotifiedPool :=
  if s.pool.destroyed then s
  else
    match event with
    | .locked op => ⟨s.pool.step op, s.signal op⟩
    | .notifyAll => { s with insertedElement := s.insertedElement.notifyAll s.pool.idle }
    | .notifyOne worker => { s with insertedElement := s.insertedElement.notifyOne s.pool.idle worker }

/-- A worker waits, and no notification comes. -/
def Stranded (s : NotifiedPool) (worker : Nat) : Prop :=
  s.pool.workers[worker]? = some .waiting ∧ s.insertedElement.Stranded worker

/-- After `stop`, with nothing left to do, no worker waits for good; and no pusher waits on a
full queue whose workers have all exited. -/
structure Terminates (s : NotifiedPool) : Prop where
  worker : s.pool.terminate = true → s.pool.Drained → ∀ worker, ¬s.Stranded worker
  pusher : ¬s.pool.Manned → ∀ call queue, s.pool.WaitsOn call queue → ¬s.pool.Full queue

/-- A worker that finds the queues empty after `stop` still has its notification to come. -/
def Announced (s : NotifiedPool) : ThreadPoolOp → Prop
  | .popTask worker _ =>
    s.pool.terminate = true → s.pool.Drained → s.pool.workers[worker]? = some .asking → 0 < s.insertedElement.alls
  | _ => True

def Attended (s : NotifiedPool) : PoolEvent → Prop
  | .locked op => s.pool.Staffed op ∧ s.Announced op
  | _ => True

end NotifiedPool

/-! ## Pushers -/

namespace ThreadPool

section
variable {s : ThreadPool}

/-- What the sections of workers and pushers keep between them. -/
def Clear (s : ThreadPool) : Prop := ¬s.Manned → ∀ call queue, s.WaitsOn call queue → ¬s.Full queue

theorem manned_set {worker : Nat} {old new : Worker} (found : s.workers[worker]? = some old) (left : new ≠ .exited) :
    Manned { s with workers := s.workers.set worker new } := by
  obtain ⟨bound, -⟩ := List.getElem?_eq_some_iff.mp found
  exact ⟨new, List.mem_set bound new, left⟩

/-- A full queue behind an insertion was full, or the insertion has filled it. -/
theorem full_insertTask {currentQueue : Nat} {tasks : List Job} {job : Job} {queue : Nat}
    (found : s.queues[currentQueue]? = some tasks) (full : (s.insertTask currentQueue tasks job).Full queue) :
    s.Full queue ∨ queue = currentQueue ∧ s.Fills queue := by
  obtain ⟨others, here, long⟩ := full
  change (s.queues.set currentQueue (tasks ++ [job]))[queue]? = some others at here
  rw [List.getElem?_set] at here
  split at here
  · rename_i same
    subst same
    obtain ⟨bound, -⟩ := List.getElem?_eq_some_iff.mp found
    rw [if_pos bound] at here
    cases here
    rw [List.length_append, List.length_singleton] at long
    exact .inr ⟨rfl, tasks, found, Nat.le_of_lt_succ long⟩
  · exact .inl ⟨others, here, long⟩

theorem Clear.pushTask (clear : s.Clear) (task : Task) (currentQueue : Nat) (timed : Bool)
    (staffed : s.Staffed (.pushTask task currentQueue timed)) : (s.pushTask task currentQueue timed).Clear := by
  unfold ThreadPool.pushTask
  cases found : s.queues[currentQueue]? with
  | none => exact clear
  | some tasks =>
    by_cases ending : s.terminate = true
    · simp only [ending, if_true]
      exact clear
    · have staffed := staffed (Bool.eq_false_iff.mpr ending)
      simp only [ending, Bool.false_eq_true, if_false]
      split
      · -- the pusher begins to wait
        rename_i long
        intro unmanned
        exfalso
        rcases staffed with manned | short | ⟨short, -⟩
        · exact unmanned manned
        · exact short ⟨tasks, found, Nat.le_of_lt long⟩
        · exact short ⟨tasks, found, long⟩
      · intro unmanned call queue waits full
        have waits : s.WaitsOn call queue := waits
        rcases full_insertTask found full with before | ⟨rfl, fills⟩
        · exact clear unmanned call queue waits before
        · rcases staffed with manned | short | ⟨-, alone⟩
          · exact unmanned manned
          · exact short fills
          · exact alone call waits

theorem Clear.pushWakes (clear : s.Clear) (call : Nat) (staffed : s.Staffed (.pushWakes call)) :
    (s.pushWakes call).Clear := by
  unfold ThreadPool.pushWakes
  cases waits : s.pushing.get call with
  | none => exact clear
  | some push =>
    dsimp only
    cases found : s.queues[push.queue]? with
    | none => exact clear
    | some tasks =>
      dsimp only
      split
      · exact clear
      · intro unmanned other queue waiting full
        obtain ⟨others, held, same⟩ := waiting
        obtain ⟨here, different⟩ := pushing_erase held
        have waiting : s.WaitsOn other queue := ⟨others, here, same⟩
        rcases full_insertTask found full with before | ⟨rfl, fills⟩
        · exact clear unmanned other queue waiting before
        · rcases staffed with manned | alone
          · exact unmanned manned
          · exact different (alone push.queue ⟨push, waits, rfl⟩ fills other waiting)

theorem Clear.pushTimesOut (clear : s.Clear) (call : Nat) : (s.pushTimesOut call).Clear := by
  unfold ThreadPool.pushTimesOut
  cases waits : s.pushing.get call with
  | none => exact clear
  | some push =>
    dsimp only
    split
    · intro unmanned other queue waiting full
      obtain ⟨others, held, same⟩ := waiting
      exact clear unmanned other queue ⟨others, (pushing_erase held).1, same⟩ full
    · exact clear

/-! ## Workers -/

theorem full_set_tail {queue other : Nat} {job : Job} {rest : List Job} (found : s.queues[queue]? = some (job :: rest))
    {workers : List Worker} (full : Full { s with queues := s.queues.set queue rest, workers := workers } other) :
    s.Full other := by
  obtain ⟨tasks, here, long⟩ := full
  dsimp only at here long
  rw [List.getElem?_set] at here
  split at here
  · rename_i same
    subst same
    obtain ⟨bound, -⟩ := List.getElem?_eq_some_iff.mp found
    rw [if_pos bound] at here
    cases here
    exact ⟨job :: rest, found, Nat.lt_succ_of_lt long⟩
  · exact ⟨tasks, here, long⟩

/-- A worker that takes a task runs it, or exits with another one left or nobody waiting. -/
theorem Clear.takeTask (clear : s.Clear) {worker queue : Nat} {old : Worker} (found : s.workers[worker]? = some old)
    (retains : s.Retains worker queue) : (s.takeTask worker queue).Clear := by
  unfold ThreadPool.takeTask
  split
  · rename_i job rest here
    intro unmanned call other waits full
    by_cases null : job.task.isNull = true
    · rcases retains job rest here null with ⟨left, state, different, present, alive⟩ | none
      · apply unmanned
        refine ⟨state, ?_, alive⟩
        have kept : (s.workers.set worker (if job.task.isNull then .exited else .running job))[left]? = some state := by
          rw [List.getElem?_set_ne different.symm, present]
        exact List.mem_of_getElem? kept
      · exact none call other waits
    · apply unmanned
      refine manned_set (s := { s with queues := s.queues.set queue rest }) found ?_
      rw [if_neg null]
      exact fun impossible => by cases impossible
  · exact clear

theorem Clear.popTask (clear : s.Clear) (worker queue : Nat) (retains : s.Retains worker queue) :
    (s.popTask worker queue).Clear := by
  unfold ThreadPool.popTask
  split
  · rename_i asking
    split
    · exact fun unmanned => absurd (manned_set asking (by decide)) unmanned
    · exact clear.takeTask asking retains
  · exact clear

theorem drained_iff : s.queues.all List.isEmpty = true ↔ s.Drained := by
  rw [List.all_eq_true]
  exact forall₂_congr fun tasks _ => List.isEmpty_iff

theorem Drained.not_full (drained : s.Drained) (queue : Nat) : ¬s.Full queue := by
  intro full
  obtain ⟨tasks, found, long⟩ := full
  rw [drained tasks (List.mem_of_getElem? found)] at long
  exact Nat.not_lt_zero _ long

theorem Clear.popWakes (clear : s.Clear) (worker queue : Nat) (retains : s.Retains worker queue) :
    (s.popWakes worker queue).Clear := by
  unfold ThreadPool.popWakes
  split
  · rename_i waiting
    split
    · rename_i empty
      split
      · exact fun _ _ other _ full => (drained_iff.mp empty).not_full other full
      · exact clear
    · exact clear.takeTask waiting retains
  · exact clear

theorem Clear.runTask (clear : s.Clear) (worker : Nat) : (s.runTask worker).Clear := by
  unfold ThreadPool.runTask
  split
  · rename_i job running
    have manned := manned_set running (by decide : Worker.asking ≠ .exited)
    exact fun unmanned => absurd manned unmanned
  · exact clear

theorem Clear.start (clear : s.Clear) :
    Clear { s with workers := s.workers.map fun worker => if worker = .unstarted then .asking else worker } := by
  intro unmanned
  apply clear
  intro manned
  obtain ⟨worker, present, alive⟩ := manned
  apply unmanned
  refine ⟨_, List.mem_map_of_mem present, ?_⟩
  split
  · decide
  · exact alive

theorem Clear.join (clear : s.Clear) : s.join.Clear := by
  unfold ThreadPool.join
  split
  · exact clear
  · exact clear

theorem Clear.step (clear : s.Clear) {op : ThreadPoolOp} (staffed : s.Staffed op) : (s.step op).Clear := by
  unfold ThreadPool.step
  split
  · exact clear
  · cases op with
    | start => exact clear.start
    | stop => exact clear
    | pushTask task currentQueue timed => exact clear.pushTask task currentQueue timed staffed
    | pushWakes call => exact clear.pushWakes call staffed
    | pushTimesOut call => exact clear.pushTimesOut call
    | popTask worker queue => exact clear.popTask worker queue staffed
    | popWakes worker queue => exact clear.popWakes worker queue staffed
    | runTask worker => exact clear.runTask worker
    | join => exact clear.join

end

/-! ## Those who wait for a task -/

section
variable {s : ThreadPool}

theorem mem_idle_iff {worker : Nat} : worker ∈ s.idle ↔ s.workers[worker]? = some .waiting := by
  simp only [idle, List.mem_filter, List.mem_range, decide_eq_true_eq, and_iff_right_iff_imp]
  intro waiting
  exact (List.getElem?_eq_some_iff.mp waiting).1

theorem idle_set {next : ThreadPool} {worker other : Nat} {state : Worker}
    (workers : next.workers = s.workers.set worker state) (waits : other ∈ next.idle) :
    other = worker ∧ state = .waiting ∨ other ≠ worker ∧ other ∈ s.idle := by
  rw [mem_idle_iff, workers, List.getElem?_set] at waits
  split at waits
  · rename_i same
    split at waits
    · exact .inl ⟨same.symm, Option.some.inj waits⟩
    · cases waits
  · rename_i different
    exact .inr ⟨Ne.symm different, mem_idle_iff.mpr waits⟩

/-- A worker that takes a task waits no longer. -/
theorem idle_takeTask {worker queue other : Nat} (waits : other ∈ (s.takeTask worker queue).idle) :
    other ∈ s.idle ∧ (other = worker → s.choosable queue = false ∨ s.queues.all List.isEmpty = true) := by
  unfold ThreadPool.takeTask at waits
  split at waits
  · rename_i job rest found
    rcases idle_set rfl waits with ⟨-, same⟩ | ⟨different, before⟩
    · split at same
      · cases same
      · cases same
    · exact ⟨before, fun same => absurd same different⟩
  · rename_i none
    refine ⟨waits, fun _ => ?_⟩
    unfold choosable
    split
    · rename_i job rest found
      exact absurd found (none job rest)
    · cases s.queues.all List.isEmpty
      · exact .inl rfl
      · exact .inr rfl

/-- Nobody else begins to wait in the section of a worker that asks for a task. -/
theorem idle_popTask {worker queue other : Nat} (waits : other ∈ (s.popTask worker queue).idle) :
    other ∈ s.idle ∨ s.workers[worker]? = some .asking ∧ s.Drained := by
  unfold ThreadPool.popTask at waits
  split at waits
  · rename_i asking
    split at waits
    · rename_i empty
      exact .inr ⟨asking, drained_iff.mp empty⟩
    · exact .inl (idle_takeTask waits).1
  · exact .inl waits

/-- After `stop` a worker that wakes does not wait again. -/
theorem idle_popWakes (ending : s.terminate = true) {worker queue other : Nat}
    (waits : other ∈ (s.popWakes worker queue).idle) :
    other ∈ s.idle ∧ (other = worker → s.choosable queue = false) := by
  unfold ThreadPool.popWakes at waits
  rw [if_pos ending] at waits
  split at waits
  · split at waits
    · rcases idle_set rfl waits with ⟨-, same⟩ | ⟨different, before⟩
      · cases same
      · exact ⟨before, fun same => absurd same different⟩
    · rename_i busy
      obtain ⟨before, taken⟩ := idle_takeTask waits
      exact ⟨before, fun same => (taken same).resolve_right busy⟩
  · rename_i awake
    refine ⟨waits, fun same => ?_⟩
    subst same
    exact absurd (mem_idle_iff.mp waits) awake

theorem idle_runTask {worker other : Nat} (waits : other ∈ (s.runTask worker).idle) : other ∈ s.idle := by
  unfold ThreadPool.runTask at waits
  split at waits
  · rcases idle_set rfl waits with ⟨-, same⟩ | ⟨-, before⟩
    · cases same
    · exact before
  · exact waits

theorem idle_start {other : Nat}
    (waits : other ∈
      idle { s with workers := s.workers.map fun worker => if worker = .unstarted then .asking else worker }) :
    other ∈ s.idle := by
  rw [mem_idle_iff] at waits ⊢
  dsimp only at waits
  rw [List.getElem?_map, Option.map_eq_some_iff] at waits
  obtain ⟨worker, found, same⟩ := waits
  split at same
  · cases same
  · rw [found, same]

end

/-- What a pusher does concerns its queue. -/
structure SameWorkers (s next : ThreadPool) : Prop where
  workers : next.workers = s.workers
  terminate : next.terminate = s.terminate

section
variable {s : ThreadPool}

theorem sameWorkers_pushTask (task : Task) (currentQueue : Nat) (timed : Bool) :
    SameWorkers s (s.pushTask task currentQueue timed) := by
  unfold ThreadPool.pushTask
  split
  · exact ⟨rfl, rfl⟩
  · dsimp only
    split
    · exact ⟨rfl, rfl⟩
    · split
      · exact ⟨rfl, rfl⟩
      · exact ⟨rfl, rfl⟩

theorem sameWorkers_pushWakes (call : Nat) : SameWorkers s (s.pushWakes call) := by
  unfold ThreadPool.pushWakes
  split
  · exact ⟨rfl, rfl⟩
  · split
    · exact ⟨rfl, rfl⟩
    · split
      · exact ⟨rfl, rfl⟩
      · exact ⟨rfl, rfl⟩

theorem sameWorkers_pushTimesOut (call : Nat) : SameWorkers s (s.pushTimesOut call) := by
  unfold ThreadPool.pushTimesOut
  split
  · exact ⟨rfl, rfl⟩
  · split
    · exact ⟨rfl, rfl⟩
    · exact ⟨rfl, rfl⟩

theorem sameWorkers_join : SameWorkers s s.join := by
  unfold ThreadPool.join
  split
  · exact ⟨rfl, rfl⟩
  · exact ⟨rfl, rfl⟩

theorem terminate_takeTask (worker queue : Nat) : (s.takeTask worker queue).terminate = s.terminate := by
  unfold ThreadPool.takeTask
  split
  · rfl
  · rfl

theorem terminate_popTask (worker queue : Nat) : (s.popTask worker queue).terminate = s.terminate := by
  unfold ThreadPool.popTask
  split
  · split
    · rfl
    · exact terminate_takeTask worker queue
  · rfl

theorem terminate_popWakes (worker queue : Nat) : (s.popWakes worker queue).terminate = s.terminate := by
  unfold ThreadPool.popWakes
  split
  · split
    · split
      · rfl
      · rfl
    · exact terminate_takeTask worker queue
  · rfl

theorem terminate_runTask (worker : Nat) : (s.runTask worker).terminate = s.terminate := by
  unfold ThreadPool.runTask
  split
  · rfl
  · rfl

end

end ThreadPool

/-! ## The pool with its notifications -/

namespace NotifiedPool

section
variable {s : NotifiedPool}

/-- From `stop` on everybody who waits has been notified, or will be. -/
structure Inv (s : NotifiedPool) : Prop where
  covers : s.pool.terminate = true → s.insertedElement.Covers s.pool.idle
  clear : s.pool.Clear

theorem inv_new (threadsCount taskQueues tasksByQueueLimit : Nat) : Inv (new threadsCount taskQueues tasksByQueueLimit) where
  covers := fun terminated => by cases terminated
  clear := by
    intro _ call queue waits
    obtain ⟨push, held, -⟩ := waits
    cases held

theorem Inv.terminates (inv : Inv s) : s.Terminates where
  worker := fun ending _ _ stranded =>
    (inv.covers ending).not_stranded (ThreadPool.mem_idle_iff.mpr stranded.1) stranded.2
  pusher := inv.clear

/-- The sections that announce nothing, or one element. -/
theorem covers_signal {waiting : List Nat} (covers : s.insertedElement.Covers waiting) {grows : Prop} [Decidable grows] :
    (if grows then s.insertedElement else s.insertedElement.announceOne).Covers waiting := by
  split
  · exact covers
  · exact covers.announceOne

theorem Inv.covers_locked (inv : Inv s) {op : ThreadPoolOp} (announced : s.Announced op)
    (alive : s.pool.destroyed = false) (ending : (s.pool.step op).terminate = true) :
    (s.signal op).Covers (s.pool.step op).idle := by
  have steps : s.pool.destroyed = true ↔ False := by simp [alive]
  simp only [ThreadPool.step, steps, if_false] at ending
  have unchanged : ∀ {next : ThreadPool}, ThreadPool.SameWorkers s.pool next → next.terminate = true →
      s.insertedElement.Covers next.idle := by
    intro next same ending
    rw [same.terminate] at ending
    apply (inv.covers ending).mono
    intro worker waits
    rw [ThreadPool.mem_idle_iff, same.workers] at waits
    exact ThreadPool.mem_idle_iff.mpr waits
  cases op with
  | stop => exact Condition.covers_announceAll
  | start =>
    apply covers_signal
    simp only [ThreadPool.step, steps, if_false]
    exact (inv.covers ending).mono fun _ => ThreadPool.idle_start
  | pushTask task currentQueue timed =>
    apply covers_signal
    simp only [ThreadPool.step, steps, if_false]
    exact unchanged (ThreadPool.sameWorkers_pushTask task currentQueue timed) ending
  | pushWakes call =>
    apply covers_signal
    simp only [ThreadPool.step, steps, if_false]
    exact unchanged (ThreadPool.sameWorkers_pushWakes call) ending
  | pushTimesOut call =>
    apply covers_signal
    simp only [ThreadPool.step, steps, if_false]
    exact unchanged (ThreadPool.sameWorkers_pushTimesOut call) ending
  | popTask worker queue =>
    apply covers_signal
    simp only [ThreadPool.step, steps, if_false]
    rw [ThreadPool.terminate_popTask] at ending
    by_cases late : s.pool.workers[worker]? = some .asking ∧ s.pool.Drained
    · exact .inl (announced ending late.2 late.1)
    · exact (inv.covers ending).mono fun _ waits => (ThreadPool.idle_popTask waits).resolve_right late
  | popWakes worker queue =>
    simp only [ThreadPool.step, steps, if_false, signal]
    rw [ThreadPool.terminate_popWakes] at ending
    split
    · rename_i chosen
      apply (inv.covers ending).wake
      intro other waits
      obtain ⟨before, taken⟩ := ThreadPool.idle_popWakes ending waits
      refine ⟨before, fun same => ?_⟩
      rw [taken same] at chosen
      cases chosen
    · exact (inv.covers ending).mono fun _ waits => (ThreadPool.idle_popWakes ending waits).1
  | runTask worker =>
    apply covers_signal
    simp only [ThreadPool.step, steps, if_false]
    rw [ThreadPool.terminate_runTask] at ending
    exact (inv.covers ending).mono fun _ => ThreadPool.idle_runTask
  | join =>
    apply covers_signal
    simp only [ThreadPool.step, steps, if_false]
    exact unchanged ThreadPool.sameWorkers_join ending

theorem Inv.step (inv : Inv s) {event : PoolEvent} (attended : s.Attended event) : Inv (s.step event) := by
  unfold NotifiedPool.step
  split
  · exact inv
  · rename_i alive
    cases event with
    | locked op =>
      constructor
      case covers => exact inv.covers_locked attended.2 (Bool.eq_false_iff.mpr alive)
      case clear => exact inv.clear.step attended.1
    | notifyAll => exact ⟨fun ending => (inv.covers ending).notifyAll, inv.clear⟩
    | notifyOne worker => exact ⟨fun ending => (inv.covers ending).notifyOne worker, inv.clear⟩

end

/-- What happens in the sections alone. -/
def sections (run : List PoolEvent) : List ThreadPoolOp :=
  run.filterMap fun event => match event with
    | .locked op => some op
    | .notifyAll | .notifyOne _ => none

/-- Without its notifications it is the pool. -/
theorem pool_reached (s : NotifiedPool) (run : List PoolEvent) :
    (reached step s run).pool = reached ThreadPool.step s.pool (sections run) := by
  have gone : ∀ {pool : ThreadPool}, pool.destroyed = true → ∀ op, pool.step op = pool := by
    intro pool destroyed op
    unfold ThreadPool.step
    rw [if_pos destroyed]
  induction run generalizing s with
  | nil => rfl
  | cons event rest ih =>
    rw [reached, ih]
    cases event with
    | locked op =>
      change _ = reached ThreadPool.step (s.pool.step op) (sections rest)
      unfold NotifiedPool.step
      split
      · rename_i destroyed
        rw [gone destroyed]
      · rfl
    | notifyAll =>
      change _ = reached ThreadPool.step s.pool (sections rest)
      unfold NotifiedPool.step
      split
      · rfl
      · rfl
    | notifyOne worker =>
      change _ = reached ThreadPool.step s.pool (sections rest)
      unfold NotifiedPool.step
      split
      · rfl
      · rfl

/-! ## The whole run -/

theorem never_missed (threadsCount taskQueues tasksByQueueLimit : Nat) (run : List PoolEvent)
    (attended : Along step Attended (new threadsCount taskQueues tasksByQueueLimit) run) :
    ∀ s ∈ visited step (new threadsCount taskQueues tasksByQueueLimit) run, s.Terminates := by
  intro s member
  exact (along_visited Inv (fun _ _ inv attended => inv.step attended) _ run (inv_new _ _ _) attended s member).terminates

/-- The worker waits before `stop`. -/
theorem never_missed_waiting :
    (reached step (new 1 1 1) [.locked .start, .locked (.popTask 0 0), .locked .stop, .notifyAll,
      .locked (.popWakes 0 0)]).Terminates := by
  apply never_missed 1 1 1 _ _ _ (reached_visited step _ _)
  have retained : ∀ s : NotifiedPool, s.pool.queues = [[]] → s.pool.Retains 0 0 := by
    intro s empty job rest found
    rw [empty] at found
    cases found
  refine ⟨⟨trivial, trivial⟩, ⟨retained _ rfl, fun ending => ?_⟩, ⟨trivial, trivial⟩, trivial, ⟨retained _ rfl, trivial⟩,
    trivial⟩
  cases ending

/-- The worker comes when the pool has been stopped and everybody notified. -/
theorem missed : ¬∀ run, ∀ s ∈ visited step (new 1 1 1) run, s.Terminates := by
  intro all
  have last := all [.locked .start, .locked .stop, .notifyAll, .locked (.popTask 0 0)] _ (reached_visited step _ _)
  have drained : ∀ tasks ∈ [([] : List Job)], tasks = [] := fun tasks => List.mem_singleton.mp
  exact last.worker rfl drained 0 ⟨rfl, List.not_mem_nil, rfl, rfl⟩

end NotifiedPool

end Mantids.Threads
