import Mantids.Library.Runs
import Mantids.Library.Table

/-! The thread pool (`threadpool.cpp`): pushers, workers, `stop` and the destructor,
each step a section under `mutexQueues`. -/

set_option autoImplicit false

namespace Mantids.Threads

open Library

/-- A function pointer and its argument; zero is `nullptr`. -/
structure Task where
  task : Nat
  data : Nat
  deriving DecidableEq

def Task.isNull (task : Task) : Bool := task.task = 0 && task.data = 0

/-- A task with the number of the `pushTask` call that brought it. -/
structure Job where
  call : Nat
  task : Task
  deriving DecidableEq

/-- A `pushTask` that waits on `cond_removedElement` of its queue; without a timeout it waits on. -/
structure Push where
  job : Job
  queue : Nat
  timed : Bool

/-- Where a worker is in `taskProcessor`. -/
inductive Worker where
  | unstarted
  /-- Before the lock of `popTask`. -/
  | asking
  /-- In `cond_insertedElement.wait`. -/
  | waiting
  | running (job : Job)
  | exited
  deriving DecidableEq

structure ThreadPool where
  terminate : Bool
  tasksByQueueLimit : Nat
  queues : List (List Job)
  workers : List Worker
  /-- The pushers that wait, by their call. -/
  pushing : Table Nat Push
  calls : Nat
  /-- The calls that returned true, those that returned false, and the tasks run. -/
  accepted : List Nat
  refused : List Nat
  executed : List Nat
  /-- The destructor has returned. -/
  destroyed : Bool

inductive ThreadPoolOp where
  | start
  | stop
  | pushTask (task : Task) (currentQueue : Nat) (timed : Bool)
  /-- A waiting pusher has the lock again, notified or not. -/
  | pushWakes (call : Nat)
  | pushTimesOut (call : Nat)
  /-- The queue is the choice of `getRandomTaskQueueWithElements`, when there is one to choose. -/
  | popTask (worker queue : Nat)
  | popWakes (worker queue : Nat)
  | runTask (worker : Nat)
  | join

namespace ThreadPool

def new (threadsCount taskQueues tasksByQueueLimit : Nat) : ThreadPool where
  terminate := false
  tasksByQueueLimit := tasksByQueueLimit
  queues := List.replicate taskQueues []
  workers := List.replicate threadsCount .unstarted
  pushing := ∅
  calls := 0
  accepted := []
  refused := []
  executed := []
  destroyed := false

def insertTask (s : ThreadPool) (currentQueue : Nat) (tasks : List Job) (job : Job) : ThreadPool :=
  { s with queues := s.queues.set currentQueue (tasks ++ [job]), accepted := job.call :: s.accepted }

def pushTask (s : ThreadPool) (task : Task) (currentQueue : Nat) (timed : Bool) : ThreadPool :=
  match s.queues[currentQueue]? with
  | none => s
  | some tasks =>
    let job : Job := ⟨s.calls, task⟩
    let s := { s with calls := s.calls + 1 }
    if s.terminate then { s with refused := job.call :: s.refused }
    else if s.tasksByQueueLimit < tasks.length then
      { s with pushing := s.pushing.insert job.call ⟨job, currentQueue, timed⟩ }
    else s.insertTask currentQueue tasks job

/-- The loop looks at the queue again, and not at `terminate`. -/
def pushWakes (s : ThreadPool) (call : Nat) : ThreadPool :=
  match s.pushing.get call with
  | none => s
  | some push =>
    match s.queues[push.queue]? with
    | none => s
    | some tasks =>
      if s.tasksByQueueLimit < tasks.length then s
      else { s with pushing := s.pushing.erase call }.insertTask push.queue tasks push.job

def pushTimesOut (s : ThreadPool) (call : Nat) : ThreadPool :=
  match s.pushing.get call with
  | none => s
  | some push =>
    if push.timed then { s with pushing := s.pushing.erase call, refused := push.job.call :: s.refused } else s

/-- The front of the queue goes to the worker; a null task ends its loop. -/
def takeTask (s : ThreadPool) (worker queue : Nat) : ThreadPool :=
  match s.queues[queue]? with
  | some (job :: rest) =>
    { s with
      queues := s.queues.set queue rest
      workers := s.workers.set worker (if job.task.isNull then .exited else .running job) }
  | _ => s

def popTask (s : ThreadPool) (worker queue : Nat) : ThreadPool :=
  if s.workers[worker]? = some .asking then
    if s.queues.all List.isEmpty then { s with workers := s.workers.set worker .waiting }
    else s.takeTask worker queue
  else s

/-- On termination, empty queues mean exit. -/
def popWakes (s : ThreadPool) (worker queue : Nat) : ThreadPool :=
  if s.workers[worker]? = some .waiting then
    if s.queues.all List.isEmpty then
      if s.terminate then { s with workers := s.workers.set worker .exited } else s
    else s.takeTask worker queue
  else s

def runTask (s : ThreadPool) (worker : Nat) : ThreadPool :=
  match s.workers[worker]? with
  | some (.running job) =>
    { s with workers := s.workers.set worker .asking, executed := job.call :: s.executed }
  | _ => s

/-- After its own `stop`, the destructor returns when every thread has ended. -/
def join (s : ThreadPool) : ThreadPool :=
  if s.terminate ∧ s.workers.all (· = .exited) then { s with destroyed := true } else s

/-- Nothing happens in a pool that is gone. -/
def step (s : ThreadPool) (op : ThreadPoolOp) : ThreadPool :=
  if s.destroyed then s
  else
    match op with
    | .start => { s with workers := s.workers.map fun worker => if worker = .unstarted then .asking else worker }
    | .stop => { s with terminate := true }
    | .pushTask task currentQueue timed => s.pushTask task currentQueue timed
    | .pushWakes call => s.pushWakes call
    | .pushTimesOut call => s.pushTimesOut call
    | .popTask worker queue => s.popTask worker queue
    | .popWakes worker queue => s.popWakes worker queue
    | .runTask worker => s.runTask worker
    | .join => s.join

end ThreadPool

end Mantids.Threads
