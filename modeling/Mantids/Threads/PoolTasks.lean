import Mantids.Threads.ThreadPool

/-! What becomes of the tasks of a pool: an accepted one is run once before the
destructor returns, a refused one never. -/

set_option autoImplicit false

namespace Mantids.Threads

open Library

/-- Replacing one of the lists moves the count by its own difference. -/
theorem countP_flatten_set {A : Type} (p : A → Bool) {lists : List (List A)} {index : Nat} {old : List A}
    (found : lists[index]? = some old) (new : List A) :
    (lists.set index new).flatten.countP p + old.countP p = lists.flatten.countP p + new.countP p := by
  induction lists generalizing index with
  | nil => simp at found
  | cons first rest ih =>
    cases index with
    | zero =>
      have same : first = old := by simpa using found
      subst same
      simp only [List.set_cons_zero, List.flatten_cons, List.countP_append]
      omega
    | succ index =>
      have later := ih (by simpa using found)
      simp only [List.set_cons_succ, List.flatten_cons, List.countP_append]
      omega

def Worker.jobs : Worker → List Job
  | running job => [job]
  | _ => []

namespace ThreadPool

/-- The destructor leaves no accepted task behind, and no refused one runs. -/
structure Lossless (s : ThreadPool) : Prop where
  executed : s.destroyed = true → ∀ call ∈ s.accepted, s.executed.count call = 1
  unexecuted : ∀ call ∈ s.refused, call ∉ s.executed

def HasRoom (s : ThreadPool) (queue : Nat) : Prop :=
  ∃ tasks, s.queues[queue]? = some tasks ∧ tasks.length ≤ s.tasksByQueueLimit

/-- The step puts the job into a queue. -/
def Inserts (s : ThreadPool) : ThreadPoolOp → Job → Prop
  | .pushTask task currentQueue _, job =>
    s.destroyed = false ∧ s.terminate = false ∧ s.HasRoom currentQueue ∧ job = ⟨s.calls, task⟩
  | .pushWakes call, job =>
    s.destroyed = false ∧ ∃ push, s.pushing.get call = some push ∧ s.HasRoom push.queue ∧ job = push.job
  | _, _ => False

/-- What is inserted is a task, and there is a worker left for it. -/
def Served (s : ThreadPool) (op : ThreadPoolOp) : Prop :=
  ∀ job, s.Inserts op job → job.task.isNull = false ∧ ∃ worker ∈ s.workers, worker ≠ .exited

/-! ## What holds between any two sections -/

/-- How often the call's task is in a queue or with a worker. -/
def held (s : ThreadPool) (call : Nat) : Nat :=
  s.queues.flatten.countP (fun job => job.call = call) +
    (s.workers.map Worker.jobs).flatten.countP (fun job => job.call = call)

structure Conserved (s : ThreadPool) : Prop where
  counted : ∀ call, s.accepted.count call = s.held call + s.executed.count call
  once : s.accepted.Nodup
  apart : ∀ call ∈ s.refused, call ∉ s.accepted
  numbered : ∀ call, call ∈ s.accepted ∨ call ∈ s.refused → call < s.calls
  pending : ∀ call push, s.pushing.get call = some push →
    push.job.call = call ∧ call < s.calls ∧ call ∉ s.accepted ∧ call ∉ s.refused
  tasks : ∀ tasks ∈ s.queues, ∀ job ∈ tasks, job.task.isNull = false
  drained : (∀ worker ∈ s.workers, worker = .exited) → ∀ tasks ∈ s.queues, tasks = []
  ended : s.destroyed = true → ∀ worker ∈ s.workers, worker = .exited

section
variable {s : ThreadPool}

theorem conserved_new (threadsCount taskQueues tasksByQueueLimit : Nat) :
    Conserved (new threadsCount taskQueues tasksByQueueLimit) := by
  have idle : ∀ count, ((List.replicate count Worker.unstarted).map Worker.jobs).flatten = [] := by
    intro count
    simp [Worker.jobs]
  constructor
  case counted =>
    intro call
    simp only [held, new, idle]
    simp
  case tasks =>
    intro tasks member job inside
    rw [List.eq_of_mem_replicate member] at inside
    cases inside
  case drained =>
    intro _ tasks member
    exact List.eq_of_mem_replicate member
  all_goals simp [new]

theorem Conserved.lossless (conserved : Conserved s) : Lossless s := by
  constructor
  case executed =>
    intro destroyed call member
    have exited := conserved.ended destroyed
    have empty := conserved.drained exited
    -- nothing is in a queue, and nobody runs anything
    have unqueued : s.queues.flatten = [] := List.flatten_eq_nil_iff.mpr empty
    have unheld : (s.workers.map Worker.jobs).flatten = [] := by
      rw [List.flatten_eq_nil_iff]
      intro jobs inside
      obtain ⟨worker, present, rfl⟩ := List.mem_map.mp inside
      rw [exited worker present]
      rfl
    have count := conserved.counted call
    rw [held, unqueued, unheld, List.count_eq_one_of_mem conserved.once member] at count
    simpa using count.symm
  case unexecuted =>
    intro call refused executed
    have count := conserved.counted call
    have none := List.count_eq_zero.mpr (conserved.apart call refused)
    have some := List.count_pos_iff.mpr executed
    omega

/-- Only what a pool holds, and what its workers do, matters. -/
theorem Conserved.workers {workers : List Worker} (conserved : Conserved s) (alive : s.destroyed = false)
    (jobs : workers.map Worker.jobs = s.workers.map Worker.jobs)
    (drained : (∀ worker ∈ workers, worker = .exited) → ∀ tasks ∈ s.queues, tasks = []) :
    Conserved { s with workers := workers } := by
  constructor
  case counted =>
    intro call
    rw [held]
    simp only [jobs]
    exact conserved.counted call
  case once => exact conserved.once
  case apart => exact conserved.apart
  case numbered => exact conserved.numbered
  case pending => exact conserved.pending
  case tasks => exact conserved.tasks
  case drained => exact drained
  case ended =>
    intro destroyed
    rw [alive] at destroyed
    cases destroyed

/-- A call is over without its task. -/
theorem Conserved.refuses {next : ThreadPool} {call : Nat} (conserved : Conserved s) (fresh : call ∉ s.accepted)
    (queues : next.queues = s.queues) (workers : next.workers = s.workers) (accepted : next.accepted = s.accepted)
    (executed : next.executed = s.executed) (destroyed : next.destroyed = s.destroyed)
    (refused : next.refused = call :: s.refused) (numbered : call < next.calls) (grows : s.calls ≤ next.calls)
    (pushing : ∀ other push, next.pushing.get other = some push → s.pushing.get other = some push ∧ other ≠ call) :
    Conserved next := by
  constructor
  case counted =>
    intro other
    rw [held, queues, workers, accepted, executed]
    exact conserved.counted other
  case once =>
    rw [accepted]
    exact conserved.once
  case apart =>
    rw [refused, accepted]
    intro other member
    rcases List.mem_cons.mp member with rfl | before
    · exact fresh
    · exact conserved.apart other before
  case numbered =>
    intro other known
    rw [accepted, refused, List.mem_cons] at known
    rcases known with old | rfl | old
    · exact Nat.lt_of_lt_of_le (conserved.numbered other (.inl old)) grows
    · exact numbered
    · exact Nat.lt_of_lt_of_le (conserved.numbered other (.inr old)) grows
  case pending =>
    intro other push found
    obtain ⟨before, different⟩ := pushing other push found
    obtain ⟨own, bound, unaccepted, unrefused⟩ := conserved.pending other push before
    rw [accepted, refused, List.mem_cons, not_or]
    exact ⟨own, Nat.lt_of_lt_of_le bound grows, unaccepted, different, unrefused⟩
  case tasks =>
    rw [queues]
    exact conserved.tasks
  case drained =>
    rw [queues, workers]
    exact conserved.drained
  case ended =>
    rw [destroyed, workers]
    exact conserved.ended

/-- A call is over, and its task in a queue for a worker that is there. -/
theorem Conserved.inserts {next : ThreadPool} {queue : Nat} {tasks : List Job} {job : Job} (conserved : Conserved s)
    (found : s.queues[queue]? = some tasks) (fresh : job.call ∉ s.accepted ∧ job.call ∉ s.refused)
    (task : job.task.isNull = false) (worker : ∃ worker ∈ s.workers, worker ≠ .exited)
    (queues : next.queues = s.queues.set queue (tasks ++ [job])) (workers : next.workers = s.workers)
    (accepted : next.accepted = job.call :: s.accepted) (executed : next.executed = s.executed)
    (destroyed : next.destroyed = s.destroyed) (refused : next.refused = s.refused) (numbered : job.call < next.calls)
    (grows : s.calls ≤ next.calls)
    (pushing : ∀ other push, next.pushing.get other = some push →
      s.pushing.get other = some push ∧ other ≠ job.call) : Conserved next := by
  constructor
  case counted =>
    intro other
    have moved := countP_flatten_set (fun job => decide (job.call = other)) found (tasks ++ [job])
    have count := conserved.counted other
    rw [List.countP_append, List.countP_singleton] at moved
    rw [held] at count ⊢
    rw [queues, workers, accepted, executed, List.count_cons]
    simp only [decide_eq_true_eq, beq_iff_eq] at moved ⊢
    omega
  case once =>
    rw [accepted]
    exact List.nodup_cons.mpr ⟨fresh.1, conserved.once⟩
  case apart =>
    rw [refused, accepted]
    intro other member inside
    rcases List.mem_cons.mp inside with rfl | before
    · exact fresh.2 member
    · exact conserved.apart other member before
  case numbered =>
    intro other known
    rw [accepted, refused, List.mem_cons] at known
    rcases known with (rfl | old) | old
    · exact numbered
    · exact Nat.lt_of_lt_of_le (conserved.numbered other (.inl old)) grows
    · exact Nat.lt_of_lt_of_le (conserved.numbered other (.inr old)) grows
  case pending =>
    intro other push waits
    obtain ⟨before, different⟩ := pushing other push waits
    obtain ⟨own, bound, unaccepted, unrefused⟩ := conserved.pending other push before
    rw [accepted, refused, List.mem_cons, not_or]
    exact ⟨own, Nat.lt_of_lt_of_le bound grows, ⟨different, unaccepted⟩, unrefused⟩
  case tasks =>
    rw [queues]
    intro others member other inside
    rcases List.mem_or_eq_of_mem_set member with old | rfl
    · exact conserved.tasks others old other inside
    · rcases List.mem_append.mp inside with old | new
      · exact conserved.tasks tasks (List.mem_of_getElem? found) other old
      · rw [List.mem_singleton.mp new]
        exact task
  case drained =>
    rw [workers]
    intro exited
    obtain ⟨left, present, alive⟩ := worker
    exact absurd (exited left present) alive
  case ended =>
    rw [destroyed, workers]
    exact conserved.ended

/-! ## Pushers -/

theorem Conserved.pushTask (conserved : Conserved s) (alive : s.destroyed = false) (task : Task) (currentQueue : Nat)
    (timed : Bool) (served : s.Served (.pushTask task currentQueue timed)) :
    Conserved (s.pushTask task currentQueue timed) := by
  -- the number of the call is new
  have fresh : s.calls ∉ s.accepted ∧ s.calls ∉ s.refused :=
    ⟨fun old => Nat.lt_irrefl _ (conserved.numbered _ (.inl old)),
      fun old => Nat.lt_irrefl _ (conserved.numbered _ (.inr old))⟩
  have others : ∀ other push, s.pushing.get other = some push → s.pushing.get other = some push ∧ other ≠ s.calls :=
    fun other push found => ⟨found, Nat.ne_of_lt (conserved.pending other push found).2.1⟩
  unfold ThreadPool.pushTask
  cases found : s.queues[currentQueue]? with
  | none => exact conserved
  | some tasks =>
    by_cases ending : s.terminate = true
    · simp only [ending, if_true]
      exact conserved.refuses fresh.1 rfl rfl rfl rfl rfl rfl (Nat.lt_succ_self _) (Nat.le_succ _) others
    · simp only [ending, Bool.false_eq_true, if_false]
      by_cases full : s.tasksByQueueLimit < tasks.length
      · simp only [full, if_true]
        constructor
        case pending =>
          intro other push waits
          rw [get_insert] at waits
          split at waits
          · rename_i same
            cases waits
            rw [same]
            exact ⟨rfl, Nat.lt_succ_self _, fresh⟩
          · have before := conserved.pending other push waits
            exact ⟨before.1, Nat.lt_succ_of_lt before.2.1, before.2.2⟩
        case counted => exact conserved.counted
        case once => exact conserved.once
        case apart => exact conserved.apart
        case numbered => exact fun call known => Nat.lt_succ_of_lt (conserved.numbered call known)
        case tasks => exact conserved.tasks
        case drained => exact conserved.drained
        case ended => exact conserved.ended
      · simp only [full]
        obtain ⟨nonNull, worker⟩ := served ⟨s.calls, task⟩
          ⟨alive, Bool.eq_false_iff.mpr ending, ⟨tasks, found, Nat.le_of_not_lt full⟩, rfl⟩
        exact conserved.inserts found fresh nonNull worker rfl rfl rfl rfl rfl rfl (Nat.lt_succ_self _) (Nat.le_succ _)
          others

/-- The pushers that still wait when one of them is through. -/
theorem pushing_erase {call other : Nat} {push : Push} (found : Table.get (s.pushing.erase call) other = some push) :
    s.pushing.get other = some push ∧ other ≠ call := by
  rw [get_erase] at found
  split at found
  · cases found
  · rename_i different
    exact ⟨found, different⟩

theorem Conserved.pushWakes (conserved : Conserved s) (alive : s.destroyed = false) (call : Nat)
    (served : s.Served (.pushWakes call)) : Conserved (s.pushWakes call) := by
  unfold ThreadPool.pushWakes
  cases waits : s.pushing.get call with
  | none => exact conserved
  | some push =>
    obtain ⟨own, bound, fresh⟩ := conserved.pending call push waits
    subst own
    simp only
    cases found : s.queues[push.queue]? with
    | none => exact conserved
    | some tasks =>
      by_cases full : s.tasksByQueueLimit < tasks.length
      · simp only [full, if_true]
        exact conserved
      · simp only [full]
        obtain ⟨nonNull, worker⟩ := served push.job
          ⟨alive, push, waits, ⟨tasks, found, Nat.le_of_not_lt full⟩, rfl⟩
        exact conserved.inserts found fresh nonNull worker rfl rfl rfl rfl rfl rfl bound (Nat.le_refl _)
          fun _ _ => pushing_erase

theorem Conserved.pushTimesOut (conserved : Conserved s) (call : Nat) : Conserved (s.pushTimesOut call) := by
  unfold ThreadPool.pushTimesOut
  cases waits : s.pushing.get call with
  | none => exact conserved
  | some push =>
    obtain ⟨own, bound, fresh, _⟩ := conserved.pending call push waits
    subst own
    by_cases timed : push.timed = true
    · simp only [timed, if_true]
      exact conserved.refuses fresh rfl rfl rfl rfl rfl rfl bound (Nat.le_refl _) fun _ _ => pushing_erase
    · simp only [timed]
      exact conserved

/-! ## Workers -/

theorem map_jobs_set {workers : List Worker} {worker : Nat} {before after : Worker}
    (found : workers[worker]? = some before) (same : after.jobs = before.jobs) :
    (workers.set worker after).map Worker.jobs = workers.map Worker.jobs := by
  induction workers generalizing worker with
  | nil => rfl
  | cons first rest ih =>
    cases worker with
    | zero =>
      have at_first : first = before := by simpa using found
      simp [at_first, same]
    | succ worker => simpa using ih (by simpa using found)

/-- A worker that is set to something else than its end has not ended. -/
theorem not_all_exited {workers : List Worker} {worker : Nat} {before after : Worker}
    (found : workers[worker]? = some before) (alive : after ≠ .exited) :
    ¬ ∀ other ∈ workers.set worker after, other = .exited := by
  intro exited
  have bound := (List.getElem?_eq_some_iff.mp found).1
  exact alive (exited after (List.mem_set bound after))

theorem Conserved.takeTask (conserved : Conserved s) (alive : s.destroyed = false) {worker : Nat} {before : Worker}
    (found : s.workers[worker]? = some before) (idle : before.jobs = []) (queue : Nat) :
    Conserved (s.takeTask worker queue) := by
  unfold ThreadPool.takeTask
  split
  · rename_i job rest filled
    have nonNull := conserved.tasks _ (List.mem_of_getElem? filled) job List.mem_cons_self
    have mapped : (s.workers.map Worker.jobs)[worker]? = some [] := by
      rw [List.getElem?_map, found, Option.map_some, idle]
    simp only [nonNull, Bool.false_eq_true, if_false]
    constructor
    case counted =>
      intro call
      have queued := countP_flatten_set (fun job => decide (job.call = call)) filled rest
      have taken := countP_flatten_set (fun job => decide (job.call = call)) mapped [job]
      have count := conserved.counted call
      rw [held] at count ⊢
      rw [List.countP_cons] at queued
      simp only [List.map_set, Worker.jobs, List.countP_nil, List.countP_singleton] at taken ⊢
      omega
    case once => exact conserved.once
    case apart => exact conserved.apart
    case numbered => exact conserved.numbered
    case pending => exact conserved.pending
    case tasks =>
      intro tasks member other inside
      rcases List.mem_or_eq_of_mem_set member with old | rfl
      · exact conserved.tasks tasks old other inside
      · exact conserved.tasks _ (List.mem_of_getElem? filled) other (List.mem_cons_of_mem job inside)
    case drained => exact fun exited => absurd exited (not_all_exited found (by simp))
    case ended =>
      intro destroyed
      rw [alive] at destroyed
      cases destroyed
  · exact conserved

theorem Conserved.popTask (conserved : Conserved s) (alive : s.destroyed = false) (worker queue : Nat) :
    Conserved (s.popTask worker queue) := by
  unfold ThreadPool.popTask
  by_cases asking : s.workers[worker]? = some .asking
  · simp only [asking, if_true]
    split
    · apply conserved.workers alive
      · exact map_jobs_set asking rfl
      · exact fun exited => absurd exited (not_all_exited asking (by simp))
    · exact conserved.takeTask alive asking rfl queue
  · simp only [asking]
    exact conserved

theorem Conserved.popWakes (conserved : Conserved s) (alive : s.destroyed = false) (worker queue : Nat) :
    Conserved (s.popWakes worker queue) := by
  unfold ThreadPool.popWakes
  by_cases waiting : s.workers[worker]? = some .waiting
  · simp only [waiting, if_true]
    split
    · rename_i empty
      split
      · -- a worker ends with the queues empty
        apply conserved.workers alive
        · exact map_jobs_set waiting rfl
        · intro _ tasks member
          exact List.isEmpty_iff.mp (List.all_eq_true.mp empty tasks member)
      · exact conserved
    · exact conserved.takeTask alive waiting rfl queue
  · simp only [waiting]
    exact conserved

theorem Conserved.runTask (conserved : Conserved s) (alive : s.destroyed = false) (worker : Nat) :
    Conserved (s.runTask worker) := by
  unfold ThreadPool.runTask
  split
  · rename_i job found
    have mapped : (s.workers.map Worker.jobs)[worker]? = some [job] := by
      rw [List.getElem?_map, found]
      rfl
    constructor
    case counted =>
      intro call
      have run := countP_flatten_set (fun job => decide (job.call = call)) mapped []
      have count := conserved.counted call
      rw [held] at count ⊢
      simp only [List.map_set, Worker.jobs, List.countP_nil, List.countP_singleton, List.count_cons, beq_iff_eq,
        decide_eq_true_eq] at run ⊢
      omega
    case once => exact conserved.once
    case apart => exact conserved.apart
    case numbered => exact conserved.numbered
    case pending => exact conserved.pending
    case tasks => exact conserved.tasks
    case drained => exact fun exited => absurd exited (not_all_exited found (by simp))
    case ended =>
      intro destroyed
      rw [alive] at destroyed
      cases destroyed
  · exact conserved

theorem Conserved.start (conserved : Conserved s) (alive : s.destroyed = false) :
    Conserved { s with workers := s.workers.map fun worker => if worker = .unstarted then .asking else worker } := by
  apply conserved.workers alive
  · rw [List.map_map]
    apply List.map_congr_left
    intro worker _
    by_cases unstarted : worker = .unstarted
    · simp [unstarted, Worker.jobs]
    · simp [unstarted]
  · intro exited
    apply conserved.drained
    intro worker member
    have ended := exited _ (List.mem_map_of_mem member)
    by_cases unstarted : worker = .unstarted
    · simp [unstarted] at ended
    · simpa [unstarted] using ended

theorem Conserved.join (conserved : Conserved s) : Conserved s.join := by
  unfold ThreadPool.join
  split
  · rename_i beyond
    constructor
    case ended =>
      intro _ worker member
      exact of_decide_eq_true (List.all_eq_true.mp beyond.2 worker member)
    case counted => exact conserved.counted
    case once => exact conserved.once
    case apart => exact conserved.apart
    case numbered => exact conserved.numbered
    case pending => exact conserved.pending
    case tasks => exact conserved.tasks
    case drained => exact conserved.drained
  · exact conserved

theorem Conserved.step (conserved : Conserved s) (op : ThreadPoolOp) (served : s.Served op) : Conserved (s.step op) := by
  unfold ThreadPool.step
  by_cases destroyed : s.destroyed = true
  · rw [if_pos destroyed]
    exact conserved
  · rw [if_neg destroyed]
    have alive : s.destroyed = false := Bool.eq_false_iff.mpr destroyed
    cases op with
    | start => exact conserved.start alive
    | stop => exact ⟨conserved.counted, conserved.once, conserved.apart, conserved.numbered, conserved.pending,
        conserved.tasks, conserved.drained, conserved.ended⟩
    | pushTask task currentQueue timed => exact conserved.pushTask alive task currentQueue timed served
    | pushWakes call => exact conserved.pushWakes alive call served
    | pushTimesOut call => exact conserved.pushTimesOut call
    | popTask worker queue => exact conserved.popTask alive worker queue
    | popWakes worker queue => exact conserved.popWakes alive worker queue
    | runTask worker => exact conserved.runTask alive worker
    | join => exact conserved.join

end

/-! ## Every interleaving -/

theorem lossless_run (threadsCount taskQueues tasksByQueueLimit : Nat) (run : List ThreadPoolOp)
    (served : Along step Served (new threadsCount taskQueues tasksByQueueLimit) run) :
    ∀ s ∈ visited step (new threadsCount taskQueues tasksByQueueLimit) run, Lossless s := by
  intro s member
  have conserved := along_visited Conserved (fun _ op held allowed => held.step op allowed) _ run
    (conserved_new threadsCount taskQueues tasksByQueueLimit) served s member
  exact conserved.lossless

/-- A worker runs a task, and ends when the pool stops. -/
theorem lossless_run_one :
    (visited step (new 1 1 100) [.start, .pushTask ⟨1, 2⟩ 0 false, .popTask 0 0, .runTask 0, .popTask 0 0, .stop,
      .popWakes 0 0, .join]).Forall Lossless := by
  rw [List.forall_iff_forall_mem]
  apply lossless_run
  refine ⟨?_, ?_, ?_, ?_, ?_, ?_, ?_, ?_, trivial⟩
  case refine_2 =>
    rintro job ⟨_, _, _, rfl⟩
    exact ⟨rfl, .asking, by decide, by decide⟩
  all_goals
    intro job impossible
    cases impossible

/-- The pusher of the third task waits for room; it gets the lock after the worker has ended,
and its task is accepted and stays in the queue. -/
theorem lossless_run_fails :
    ¬ ∀ threadsCount taskQueues tasksByQueueLimit run,
      ∀ s ∈ visited step (new threadsCount taskQueues tasksByQueueLimit) run, Lossless s := by
  intro claim
  have lossless := claim 1 1 0 [.start, .pushTask ⟨1, 2⟩ 0 false, .popTask 0 0, .pushTask ⟨1, 3⟩ 0 false,
    .pushTask ⟨1, 4⟩ 0 false, .runTask 0, .popTask 0 0, .runTask 0, .popTask 0 0, .stop, .popWakes 0 0, .pushWakes 2,
    .join] _ (reached_visited _ _ _)
  have run := lossless.executed (by decide) 2 (by decide)
  revert run
  decide

end ThreadPool

end Mantids.Threads
