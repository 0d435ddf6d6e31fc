import Mantids.Library.Runs
import Mantids.Threads.SafeMap

/-! The life of the map's elements under any interleaving of its threads: each step
is one section of a call under `mutex_xMap`, with the 32 bits of the reader count. -/

set_option autoImplicit false

namespace Mantids.Threads

open Library

/-- A thread has the element of a key open. -/
structure Handle (T : Type) where
  thread : Nat
  key : T
  element : Nat
  deriving DecidableEq

/-- Elements are numbered as the map accepts them. Next to the map stand the threads that
wait in `destroyElement` with their `delElement`, and what happened so far: who has what
open, whose destruction has begun, what was deleted. -/
structure MapState (T : Type) where
  xMap : SafeMap T Nat
  waiting : Table Nat (T × Nat)
  handles : List (Handle T)
  added : Nat
  begun : List Nat
  deleted : List Nat

inductive MapOp (T : Type) where
  /-- The element may be a null pointer. -/
  | addElement (thread : Nat) (key : T) (null : Bool)
  | openElement (thread : Nat) (key : T)
  | releaseElement (thread : Nat) (key : T)
  | destroyElement (thread : Nat) (key : T)
  /-- A waiting thread has the lock again, notified or not. -/
  | wake (thread : Nat)

def MapOp.thread {T : Type} : MapOp T → Nat
  | addElement thread _ _ => thread
  | openElement thread _ => thread
  | releaseElement thread _ => thread
  | destroyElement thread _ => thread
  | wake thread => thread

/-- How a section ends; `deleted` with the reader count that was found. -/
inductive MapEvent where
  | refused
  | done
  | opened (element : Nat)
  | waits
  | deleted (element readers : Nat)
  | throws
  deriving DecidableEq

namespace MapState

section
variable {T : Type} [DecidableEq T]

def empty : MapState T := ⟨∅, ∅, [], 0, [], []⟩

/-- `delete` and `erase`. -/
def remove (s : MapState T) (key : T) (delElement : Nat) : MapState T :=
  { s with xMap := s.xMap.erase key, deleted := delElement :: s.deleted }

def addElement (s : MapState T) (key : T) (null : Bool) : MapEvent × MapState T :=
  match s.xMap.get key with
  | none =>
    if null then (.done, { s with xMap := s.xMap.insert key ⟨none, 0⟩ })
    else (.done, { s with xMap := s.xMap.insert key ⟨some s.added, 0⟩, added := s.added + 1 })
  | some _ => (.refused, s)

def openElement (s : MapState T) (thread : Nat) (key : T) : MapEvent × MapState T :=
  match s.xMap.get key with
  | some ⟨some element, readers⟩ =>
    (.opened element, { s with
      xMap := s.xMap.insert key ⟨some element, (readers + 1) % 2 ^ 32⟩
      handles := ⟨thread, key, element⟩ :: s.handles })
  | _ => (.refused, s)

/-- One of the thread's handles on the key goes, when it has one. -/
def drop (handles : List (Handle T)) (thread : Nat) (key : T) : List (Handle T) :=
  match handles.find? fun handle => handle.thread = thread ∧ handle.key = key with
  | some handle => handles.erase handle
  | none => handles

def releaseElement (s : MapState T) (thread : Nat) (key : T) : MapEvent × MapState T :=
  match s.xMap.get key with
  | none => (.refused, s)
  | some ⟨_, 0⟩ => (.throws, s)
  | some ⟨element, readers + 1⟩ =>
    (.done, { s with
      xMap := s.xMap.insert key ⟨element, readers⟩
      handles := drop s.handles thread key })

/-- The section up to the first wait, or to the end when there are no readers. -/
def destroyElement (s : MapState T) (thread : Nat) (key : T) : MapEvent × MapState T :=
  match s.xMap.get key with
  | some ⟨some delElement, readers⟩ =>
    let s := { s with xMap := s.xMap.insert key ⟨none, readers⟩, begun := delElement :: s.begun }
    if readers ≠ 0 then (.waits, { s with waiting := s.waiting.insert thread (key, delElement) })
    else (.deleted delElement readers, s.remove key delElement)
  | _ => (.refused, s)

/-- The loop goes round again. A key that is missing is made by `operator[]`, without readers. -/
def wake (s : MapState T) (thread : Nat) : MapEvent × MapState T :=
  match s.waiting.get thread with
  | some (key, delElement) =>
    let readers := ((s.xMap.get key).map (·.readers)).getD 0
    if readers ≠ 0 then (.waits, s)
    else (.deleted delElement readers, { s.remove key delElement with waiting := s.waiting.erase thread })
  | none => (.refused, s)

/-- A thread that waits does nothing else. -/
def act (s : MapState T) (op : MapOp T) : MapEvent × MapState T :=
  match op, s.waiting.get op.thread with
  | .wake thread, _ => s.wake thread
  | _, some _ => (.waits, s)
  | .addElement _ key null, none => s.addElement key null
  | .openElement thread key, none => s.openElement thread key
  | .releaseElement thread key, none => s.releaseElement thread key
  | .destroyElement thread key, none => s.destroyElement thread key

def step (s : MapState T) (op : MapOp T) : MapState T := (s.act op).2

/-! The sections do to the map what the calls of `SafeMap` do, while the count does not wrap. -/

theorem addElement_xMap (s : MapState T) (key : T) :
    (s.addElement key false).2.xMap = (s.xMap.addElement key s.added).2 := by
  unfold addElement SafeMap.addElement
  cases s.xMap.get key <;> rfl

theorem openElement_xMap (s : MapState T) (thread : Nat) {key : T} {element readers : Nat}
    (found : s.xMap.get key = some ⟨some element, readers⟩) (few : readers + 1 < 2 ^ 32) :
    (s.openElement thread key).2.xMap = (s.xMap.openElement key).2 := by
  simp only [openElement, SafeMap.openElement, found, Nat.mod_eq_of_lt few]

/-! ## What is promised -/

/-- The `rdElement` under a key, when the key is in the map. -/
def pointer (s : MapState T) (key : T) : Option (Option Nat) := (s.xMap.get key).map (·.rdElement)

/-- The element is in the map under the key, open for readers or with its destruction pending. -/
def Holds (s : MapState T) (key : T) (element : Nat) : Prop :=
  s.pointer key = some (some element) ∨
    ∃ thread, s.waiting.get thread = some (key, element) ∧ s.pointer key = some none

/-- The readers of an element keep it in the map, and nothing is deleted twice. -/
structure Safe (s : MapState T) : Prop where
  kept : ∀ handle ∈ s.handles, s.Holds handle.key handle.element
  undeleted : ∀ handle ∈ s.handles, handle.element ∉ s.deleted
  once : s.deleted.Nodup

/-- What the outcome of a section promises. -/
def Promises (s : MapState T) : MapEvent → Prop
  | .opened element => element ∉ s.begun
  | .deleted element readers => readers = 0 ∧ element ∉ s.deleted ∧ ∀ handle ∈ s.handles, handle.element ≠ element
  | .throws => False
  | _ => True

def Good (s : MapState T) (op : MapOp T) : Prop := s.Promises (s.act op).1

/-- A thread releases only what it has open. -/
def Polite (s : MapState T) : MapOp T → Prop
  | .releaseElement thread key => ∃ handle ∈ s.handles, handle.thread = thread ∧ handle.key = key
  | _ => True

/-- A key is opened while fewer than `2 ^ 32 - 1` handles on it are open. -/
def Few (s : MapState T) : MapOp T → Prop
  | .openElement _ key => s.handles.countP (fun handle => handle.key = key) + 1 < 2 ^ 32
  | _ => True

/-! ## What holds between any two sections -/

structure Ordered (s : MapState T) : Prop where
  counted : ∀ key entry, s.xMap.get key = some entry → entry.readers = s.handles.countP (fun handle => handle.key = key)
  held : ∀ handle ∈ s.handles, s.Holds handle.key handle.element
  waits : ∀ thread key element, s.waiting.get thread = some (key, element) → s.pointer key = some none
  pending : ∀ thread key element, s.waiting.get thread = some (key, element) → element ∈ s.begun
  alone : ∀ thread other key element twin, s.waiting.get thread = some (key, element) →
    s.waiting.get other = some (key, twin) → thread = other
  distinct : ∀ key other element, s.Holds key element → s.Holds other element → key = other
  live : ∀ key element, s.Holds key element → element < s.added ∧ element ∉ s.deleted
  unbegun : ∀ key element, s.pointer key = some (some element) → element ∉ s.begun
  known : ∀ element ∈ s.begun, element < s.added
  ended : ∀ element ∈ s.deleted, element ∈ s.begun
  once : s.deleted.Nodup

theorem ordered_empty : Ordered (empty : MapState T) := by
  constructor <;> simp [empty, Holds, pointer]

variable {s : MapState T}

theorem Ordered.safe (ordered : Ordered s) : Safe s :=
  ⟨ordered.held, fun handle member => (ordered.live _ _ (ordered.held handle member)).2, ordered.once⟩

theorem pointer_insert (s : MapState T) (key : T) (entry : SMapElement Nat) (other : T) :
    (Table.get (s.xMap.insert key entry) other).map (·.rdElement) =
      if other = key then some entry.rdElement else s.pointer other := by
  rw [get_insert]
  split <;> rfl

/-- A section that changes how often elements are open, and nothing else. -/
theorem Ordered.counts {next : MapState T} (ordered : Ordered s) (pointer : ∀ key, next.pointer key = s.pointer key)
    (waiting : next.waiting = s.waiting) (added : next.added = s.added) (begun : next.begun = s.begun)
    (deleted : next.deleted = s.deleted)
    (counted : ∀ key entry, next.xMap.get key = some entry →
      entry.readers = next.handles.countP (fun handle => handle.key = key))
    (held : ∀ handle ∈ next.handles, s.Holds handle.key handle.element) : Ordered next := by
  have same : ∀ key element, next.Holds key element ↔ s.Holds key element := by
    intro key element
    rw [Holds, Holds, pointer, waiting]
  constructor
  case counted => exact counted
  case held =>
    intro handle member
    exact (same _ _).mpr (held handle member)
  case waits =>
    rw [waiting]
    intro thread key element found
    rw [pointer]
    exact ordered.waits thread key element found
  case pending =>
    rw [waiting, begun]
    exact ordered.pending
  case alone =>
    rw [waiting]
    exact ordered.alone
  case distinct =>
    intro key other element one two
    exact ordered.distinct key other element ((same _ _).mp one) ((same _ _).mp two)
  case live =>
    intro key element holds
    rw [added, deleted]
    exact ordered.live key element ((same _ _).mp holds)
  case unbegun =>
    intro key element found
    rw [begun]
    exact ordered.unbegun key element ((pointer key).symm.trans found)
  case known =>
    rw [begun, added]
    exact ordered.known
  case ended =>
    rw [begun, deleted]
    exact ordered.ended
  case once =>
    rw [deleted]
    exact ordered.once

theorem Ordered.waits_present (ordered : Ordered s) {thread : Nat} {key : T} {element : Nat}
    (vacant : s.pointer key = none) : s.waiting.get thread ≠ some (key, element) := by
  intro found
  simp [ordered.waits thread key element found] at vacant

/-- Nobody has a missing key open. -/
theorem Ordered.unread_of_vacant (ordered : Ordered s) {key : T} (vacant : s.pointer key = none) :
    s.handles.countP (fun handle => handle.key = key) = 0 := by
  rw [List.countP_eq_zero]
  intro handle member same
  have holds := ordered.held handle member
  rw [of_decide_eq_true same] at holds
  simp [Holds, vacant] at holds

/-- A section that puts a new element, or a null pointer, under a missing key. -/
theorem Ordered.inserts {next : MapState T} (ordered : Ordered s) {key : T} (given : Option Nat)
    (vacant : s.pointer key = none) (fresh : ∀ element ∈ given, element = s.added ∧ s.added < next.added)
    (grows : s.added ≤ next.added) (written : next.xMap = s.xMap.insert key ⟨given, 0⟩)
    (waiting : next.waiting = s.waiting) (handles : next.handles = s.handles) (begun : next.begun = s.begun)
    (deleted : next.deleted = s.deleted) : Ordered next := by
  have pointers : ∀ other, next.pointer other = if other = key then some given else s.pointer other := by
    intro other
    rw [pointer, written]
    exact pointer_insert s key ⟨given, 0⟩ other
  have holds : ∀ other element, next.Holds other element ↔
      s.Holds other element ∨ other = key ∧ given = some element := by
    intro other element
    rw [Holds, Holds, pointers, waiting]
    by_cases at_key : other = key
    · subst at_key
      simp [vacant, ordered.waits_present vacant]
    · simp [at_key]
  constructor
  case counted =>
    intro other entry found
    rw [written, get_insert] at found
    rw [handles]
    split at found
    · rename_i same
      cases found
      rw [same, ordered.unread_of_vacant vacant]
    · exact ordered.counted other entry found
  case held =>
    rw [handles]
    intro handle member
    exact (holds _ _).mpr (.inl (ordered.held handle member))
  case waits =>
    rw [waiting]
    intro thread other element found
    have present := ordered.waits thread other element found
    rw [pointers, if_neg]
    · exact present
    · intro same
      rw [same, vacant] at present
      cases present
  case pending =>
    rw [waiting, begun]
    exact ordered.pending
  case alone =>
    rw [waiting]
    exact ordered.alone
  case distinct =>
    intro one other element first second
    rcases (holds _ _).mp first with old | ⟨same, new⟩
    · rcases (holds _ _).mp second with old' | ⟨_, new'⟩
      · exact ordered.distinct one other element old old'
      · have numbered := (fresh element new').1
        have bound := (ordered.live one element old).1
        omega
    · rcases (holds _ _).mp second with old' | ⟨same', _⟩
      · have numbered := (fresh element new).1
        have bound := (ordered.live other element old').1
        omega
      · rw [same, same']
  case live =>
    intro other element now
    rw [deleted]
    rcases (holds _ _).mp now with old | ⟨_, new⟩
    · have alive := ordered.live other element old
      exact ⟨by omega, alive.2⟩
    · obtain ⟨numbered, bound⟩ := fresh element new
      refine ⟨by omega, fun gone => ?_⟩
      have known := ordered.known element (ordered.ended element gone)
      omega
  case unbegun =>
    intro other element found
    rw [begun]
    rw [pointers] at found
    split at found
    · -- a new number is not among those whose destruction has begun
      intro old
      have numbered := (fresh element (Option.some.inj found)).1
      have known := ordered.known element old
      omega
    · exact ordered.unbegun other element found
  case known =>
    rw [begun]
    intro element old
    have known := ordered.known element old
    omega
  case ended =>
    rw [begun, deleted]
    exact ordered.ended
  case once =>
    rw [deleted]
    exact ordered.once

theorem Ordered.addElement (ordered : Ordered s) (key : T) (null : Bool) :
    Ordered (s.addElement key null).2 ∧ s.Promises (s.addElement key null).1 := by
  unfold MapState.addElement
  cases found : s.xMap.get key with
  | some _ => exact ⟨ordered, trivial⟩
  | none =>
    have vacant : s.pointer key = none := by
      rw [pointer, found]
      rfl
    cases null with
    | true => exact ⟨ordered.inserts none vacant (by simp) (Nat.le_refl _) rfl rfl rfl rfl rfl, trivial⟩
    | false => exact ⟨ordered.inserts (some s.added) vacant (by simp) (Nat.le_succ _) rfl rfl rfl rfl rfl, trivial⟩

theorem Ordered.openElement (ordered : Ordered s) (thread : Nat) (key : T) (few : s.Few (.openElement thread key)) :
    Ordered (s.openElement thread key).2 ∧ s.Promises (s.openElement thread key).1 := by
  unfold MapState.openElement
  split
  · rename_i element readers found
    have pointed : s.pointer key = some (some element) := by
      rw [pointer, found]
      rfl
    have count : readers = s.handles.countP (fun handle => handle.key = key) := ordered.counted key _ found
    refine ⟨?_, ordered.unbegun key element pointed⟩
    apply ordered.counts
    case pointer =>
      intro other
      rw [pointer, pointer_insert]
      split
      · rename_i same
        rw [same, pointed]
      · rfl
    case waiting => rfl
    case added => rfl
    case begun => rfl
    case deleted => rfl
    case counted =>
      intro other entry at_other
      rw [get_insert] at at_other
      rw [List.countP_cons]
      split at at_other
      · rename_i same
        cases at_other
        simp only [same, decide_true, if_true]
        -- the 32 bits do not wrap
        rw [Nat.mod_eq_of_lt, count]
        rw [count]
        exact few
      · rename_i different
        simp [Ne.symm different, ordered.counted other entry at_other]
    case held =>
      intro handle member
      rcases List.mem_cons.mp member with rfl | old
      · exact .inl pointed
      · exact ordered.held handle old
  · exact ⟨ordered, trivial⟩

theorem countP_drop (handles : List (Handle T)) (thread : Nat) (key other : T)
    (own : ∃ handle ∈ handles, handle.thread = thread ∧ handle.key = key) :
    (drop handles thread key).countP (fun handle => handle.key = other) + (if other = key then 1 else 0) =
      handles.countP (fun handle => handle.key = other) := by
  unfold drop
  cases found : handles.find? fun handle => handle.thread = thread ∧ handle.key = key with
  | none =>
    obtain ⟨handle, member, same⟩ := own
    exact absurd (decide_eq_true same) (List.find?_eq_none.mp found handle member)
  | some handle =>
    have same : handle.thread = thread ∧ handle.key = key := by
      have held := List.find?_some found
      exact of_decide_eq_true held
    have perm := List.perm_cons_erase (List.mem_of_find?_eq_some found)
    rw [perm.countP_eq, List.countP_cons]
    by_cases at_key : other = key
    · simp [at_key, same.2]
    · simp [at_key, same.2, Ne.symm at_key]

theorem mem_of_mem_drop {handles : List (Handle T)} {thread : Nat} {key : T} {handle : Handle T}
    (member : handle ∈ drop handles thread key) : handle ∈ handles := by
  unfold drop at member
  split at member
  · exact List.mem_of_mem_erase member
  · exact member

theorem Ordered.releaseElement (ordered : Ordered s) (thread : Nat) (key : T)
    (polite : s.Polite (.releaseElement thread key)) :
    Ordered (s.releaseElement thread key).2 ∧ s.Promises (s.releaseElement thread key).1 := by
  obtain ⟨own, member, at_thread, at_key⟩ := polite
  have counted : 0 < s.handles.countP (fun handle => handle.key = key) :=
    List.countP_pos_iff.mpr ⟨own, member, decide_eq_true at_key⟩
  have present : s.pointer key ≠ none := by
    intro vacant
    have none := ordered.unread_of_vacant vacant
    omega
  unfold MapState.releaseElement
  split
  · rename_i missing
    simp [pointer, missing] at present
  · rename_i pointed found
    have count := ordered.counted key _ found
    simp only at count
    omega
  · rename_i pointed readers found
    have count : readers + 1 = s.handles.countP (fun handle => handle.key = key) := ordered.counted key _ found
    refine ⟨ordered.counts ?_ rfl rfl rfl rfl ?_ ?_, trivial⟩
    case _ =>
      intro other
      rw [pointer, pointer_insert]
      split
      · rename_i same
        rw [same, pointer, found]
        rfl
      · rfl
    case _ =>
      intro other entry at_other
      have dropped := countP_drop s.handles thread key other ⟨own, member, at_thread, at_key⟩
      rw [get_insert] at at_other
      split at at_other
      · rename_i same
        cases at_other
        rw [if_pos same, same, ← count] at dropped
        rw [same]
        exact (Nat.succ.inj dropped).symm
      · rename_i different
        rw [if_neg different, Nat.add_zero] at dropped
        rw [ordered.counted other entry at_other]
        exact dropped.symm
    case _ =>
      intro handle left
      exact ordered.held handle (mem_of_mem_drop left)

/-! ## Destruction -/

/-- A section that deletes an element nobody has open, and erases its key. -/
theorem Ordered.removes {next : MapState T} (ordered : Ordered s) {key : T} {element : Nat}
    (holds : s.Holds key element) (unread : s.handles.countP (fun handle => handle.key = key) = 0)
    (erased : ∀ other, next.xMap.get other = if other = key then none else s.xMap.get other) (handles : next.handles = s.handles) (added : next.added = s.added)
    (deleted : next.deleted = element :: s.deleted)
    (begun : ∀ other, other ∈ next.begun ↔ other = element ∨ other ∈ s.begun)
    (waiting : ∀ thread other twin, next.waiting.get thread = some (other, twin) ↔
      s.waiting.get thread = some (other, twin) ∧ other ≠ key) : Ordered next := by
  have pointers : ∀ other, next.pointer other = if other = key then none else s.pointer other := by
    intro other
    rw [pointer, erased]
    split <;> rfl
  have rest : ∀ other twin, next.Holds other twin ↔ s.Holds other twin ∧ other ≠ key := by
    intro other twin
    simp only [Holds, pointers, waiting]
    by_cases at_key : other = key
    · simp [at_key]
    · simp [at_key]
  have sole : ∀ other, s.Holds other element → other = key := fun other held =>
    ordered.distinct other key element held holds
  have alive := ordered.live key element holds
  constructor
  case counted =>
    intro other entry found
    rw [erased] at found
    rw [handles]
    split at found
    · cases found
    · exact ordered.counted other entry found
  case held =>
    rw [handles]
    intro handle member
    apply (rest _ _).mpr
    constructor
    · exact ordered.held handle member
    · intro same
      exact List.countP_eq_zero.mp unread handle member (decide_eq_true same)
  case waits =>
    intro thread other twin found
    obtain ⟨before, different⟩ := (waiting _ _ _).mp found
    rw [pointers, if_neg different]
    exact ordered.waits thread other twin before
  case pending =>
    intro thread other twin found
    exact (begun twin).mpr (.inr (ordered.pending thread other twin ((waiting _ _ _).mp found).1))
  case alone =>
    intro thread other at_ twin twin' found found'
    exact ordered.alone thread other at_ twin twin' ((waiting _ _ _).mp found).1 ((waiting _ _ _).mp found').1
  case distinct =>
    intro one other twin first second
    exact ordered.distinct one other twin ((rest _ _).mp first).1 ((rest _ _).mp second).1
  case live =>
    intro other twin held
    obtain ⟨before, different⟩ := (rest _ _).mp held
    have kept := ordered.live other twin before
    rw [added, deleted, List.mem_cons, not_or]
    refine ⟨kept.1, ?_, kept.2⟩
    rintro rfl
    exact different (sole other before)
  case unbegun =>
    intro other twin found
    rw [pointers] at found
    split at found
    · cases found
    · rename_i different
      rw [begun, not_or]
      refine ⟨?_, ordered.unbegun other twin found⟩
      rintro rfl
      exact different (sole other (.inl found))
  case known =>
    intro twin member
    rw [added]
    rcases (begun twin).mp member with rfl | before
    · exact alive.1
    · exact ordered.known twin before
  case ended =>
    rw [deleted]
    intro twin member
    rcases List.mem_cons.mp member with same | before
    · exact (begun twin).mpr (.inl same)
    · exact (begun twin).mpr (.inr (ordered.ended twin before))
  case once =>
    rw [deleted]
    exact List.nodup_cons.mpr ⟨alive.2, ordered.once⟩

/-- The first section of a destruction that has to wait: the element is closed for new readers. -/
theorem Ordered.closes (ordered : Ordered s) {thread : Nat} {key : T} {element readers : Nat}
    (free : s.waiting.get thread = none) (found : s.xMap.get key = some ⟨some element, readers⟩) :
    Ordered { s with
      xMap := s.xMap.insert key ⟨none, readers⟩
      begun := element :: s.begun
      waiting := s.waiting.insert thread (key, element) } := by
  have pointed : s.pointer key = some (some element) := by
    rw [pointer, found]
    rfl
  have nobody : ∀ other twin, s.waiting.get other ≠ some (key, twin) := by
    intro other twin waits
    simp [ordered.waits other key twin waits] at pointed
  have holds : ∀ other twin, ({ s with
      xMap := s.xMap.insert key ⟨none, readers⟩
      begun := element :: s.begun
      waiting := s.waiting.insert thread (key, element) } : MapState T).Holds other twin ↔ s.Holds other twin := by
    intro other twin
    rw [Holds, Holds, pointer, pointer_insert]
    simp only [get_insert]
    by_cases at_key : other = key
    · -- what was pointed at is what its destroyer waits for
      subst at_key
      have waits : (∃ t, (if t = thread then some (other, element) else s.waiting.get t) = some (other, twin)) ↔
          element = twin := by
        constructor
        · rintro ⟨t, written⟩
          split at written
          · cases written
            rfl
          · exact absurd written (nobody t twin)
        · rintro rfl
          exact ⟨thread, if_pos rfl⟩
      simp [pointed, waits, nobody]
    · have same : ∀ t, (if t = thread then some (key, element) else s.waiting.get t) = some (other, twin) ↔
          s.waiting.get t = some (other, twin) := by
        intro t
        split
        · rename_i at_thread
          rw [at_thread, free]
          simp [Ne.symm at_key]
        · exact Iff.rfl
      simp [at_key, same]
  constructor
  case counted =>
    intro other entry at_other
    rw [get_insert] at at_other
    split at at_other
    · rename_i same
      cases at_other
      rw [same]
      have count : readers = s.handles.countP (fun handle => handle.key = key) := ordered.counted key _ found
      exact count
    · exact ordered.counted other entry at_other
  case held =>
    intro handle member
    exact (holds _ _).mpr (ordered.held handle member)
  case waits =>
    intro t other twin waits
    rw [get_insert] at waits
    rw [pointer, pointer_insert]
    split at waits
    · cases waits
      exact if_pos rfl
    · split
      · rfl
      · exact ordered.waits t other twin waits
  case pending =>
    intro t other twin waits
    rw [get_insert] at waits
    split at waits
    · cases waits
      exact List.mem_cons_self
    · exact List.mem_cons_of_mem element (ordered.pending t other twin waits)
  case alone =>
    intro t t' other twin twin' waits waits'
    rw [get_insert] at waits waits'
    split at waits
    · cases waits
      split at waits'
      · rename_i one two
        rw [one, two]
      · exact absurd waits' (nobody t' twin')
    · split at waits'
      · cases waits'
        exact absurd waits (nobody t twin)
      · exact ordered.alone t t' other twin twin' waits waits'
  case distinct =>
    intro one other twin first second
    exact ordered.distinct one other twin ((holds _ _).mp first) ((holds _ _).mp second)
  case live =>
    intro other twin held
    exact ordered.live other twin ((holds _ _).mp held)
  case unbegun =>
    intro other twin held
    rw [pointer, pointer_insert] at held
    split at held
    · cases held
    · rename_i different
      rw [List.mem_cons, not_or]
      refine ⟨?_, ordered.unbegun other twin held⟩
      rintro rfl
      exact different (ordered.distinct other key twin (.inl held) (.inl pointed))
  case known =>
    intro twin member
    rcases List.mem_cons.mp member with rfl | before
    · exact (ordered.live key twin (.inl pointed)).1
    · exact ordered.known twin before
  case ended =>
    intro twin member
    exact List.mem_cons_of_mem element (ordered.ended twin member)
  case once => exact ordered.once

/-- An element whose count is zero is nobody's. -/
theorem Ordered.unread (ordered : Ordered s) {key : T} {element : Nat} (holds : s.Holds key element)
    (zero : s.handles.countP (fun handle => handle.key = key) = 0) :
    element ∉ s.deleted ∧ ∀ handle ∈ s.handles, handle.element ≠ element := by
  refine ⟨(ordered.live key element holds).2, fun handle member same => ?_⟩
  have held := ordered.held handle member
  rw [same] at held
  have at_key := ordered.distinct handle.key key element held holds
  exact List.countP_eq_zero.mp zero handle member (decide_eq_true at_key)

theorem Ordered.destroyElement (ordered : Ordered s) {thread : Nat} (free : s.waiting.get thread = none) (key : T) :
    Ordered (s.destroyElement thread key).2 ∧ s.Promises (s.destroyElement thread key).1 := by
  unfold MapState.destroyElement
  split
  · rename_i element readers found
    have count : readers = s.handles.countP (fun handle => handle.key = key) := ordered.counted key _ found
    have holds : s.Holds key element := by
      left
      rw [pointer, found]
      rfl
    by_cases none : readers = 0
    · have zero : s.handles.countP (fun handle => handle.key = key) = 0 := count.symm.trans none
      simp only [none, ne_eq, not_true_eq_false, if_false]
      constructor
      · apply ordered.removes holds zero
        case erased =>
          intro other
          simp only [remove, get_erase, get_insert]
          split <;> rfl
        case handles => rfl
        case added => rfl
        case deleted => rfl
        case begun => exact fun _ => List.mem_cons
        case waiting =>
          intro t other twin
          refine ⟨fun waits => ⟨waits, ?_⟩, fun waits => waits.1⟩
          rintro rfl
          have null := ordered.waits t other twin waits
          rw [pointer, found] at null
          cases null
      · exact ⟨rfl, ordered.unread holds zero⟩
    · simp only [ne_eq, none, not_false_eq_true, if_true]
      exact ⟨ordered.closes free found, trivial⟩
  · exact ⟨ordered, trivial⟩

theorem Ordered.wake (ordered : Ordered s) (thread : Nat) :
    Ordered (s.wake thread).2 ∧ s.Promises (s.wake thread).1 := by
  unfold MapState.wake
  cases waits : s.waiting.get thread with
  | none => exact ⟨ordered, trivial⟩
  | some waited =>
    obtain ⟨key, element⟩ := waited
    have null := ordered.waits thread key element waits
    have holds : s.Holds key element := .inr ⟨thread, waits, null⟩
    -- the key is still there, so its count is that of the open handles
    obtain ⟨entry, found, _⟩ := Option.map_eq_some_iff.mp null
    have count := ordered.counted key entry found
    simp only [found, Option.map_some, Option.getD_some]
    by_cases none : entry.readers = 0
    · have zero : s.handles.countP (fun handle => handle.key = key) = 0 := count.symm.trans none
      simp only [none, ne_eq, not_true_eq_false, if_false]
      constructor
      · apply ordered.removes holds zero
        case erased => exact fun other => get_erase s.xMap key other
        case handles => rfl
        case added => rfl
        case deleted => rfl
        case begun =>
          intro other
          refine ⟨.inr, ?_⟩
          rintro (rfl | before)
          · exact ordered.pending thread key other waits
          · exact before
        case waiting =>
          intro t other twin
          simp only [get_erase]
          by_cases same : t = thread
          · simp only [same, if_true, waits]
            constructor
            · intro none
              cases none
            · rintro ⟨own, different⟩
              cases own
              exact absurd rfl different
          · simp only [same, if_false]
            refine ⟨fun other_waits => ⟨other_waits, ?_⟩, fun both => both.1⟩
            rintro rfl
            exact same (ordered.alone t thread other twin element other_waits waits)
      · exact ⟨rfl, ordered.unread holds zero⟩
    · simp only [ne_eq, none, not_false_eq_true, if_true]
      exact ⟨ordered, trivial⟩

/-! ## Every interleaving -/

theorem Ordered.act (ordered : Ordered s) (op : MapOp T) (polite : s.Polite op) (few : s.Few op) :
    Ordered (s.act op).2 ∧ s.Promises (s.act op).1 := by
  unfold MapState.act
  cases free : s.waiting.get op.thread with
  | some _ =>
    cases op with
    | wake thread => exact ordered.wake thread
    | _ => exact ⟨ordered, trivial⟩
  | none =>
    cases op with
    | addElement _ key null => exact ordered.addElement key null
    | openElement thread key => exact ordered.openElement thread key few
    | releaseElement thread key => exact ordered.releaseElement thread key polite
    | destroyElement thread key => exact ordered.destroyElement free key
    | wake thread => exact ordered.wake thread

theorem lifeCycle (run : List (MapOp T)) (polite : Along step Polite (empty : MapState T) run)
    (few : Along step Few (empty : MapState T) run) :
    (∀ s ∈ visited step (empty : MapState T) run, Safe s) ∧ Along step Good (empty : MapState T) run := by
  have carried : ∀ (s : MapState T) op, Ordered s → s.Polite op ∧ s.Few op → Ordered (s.step op) ∧ s.Good op :=
    fun s op ordered allowed => ordered.act op allowed.1 allowed.2
  constructor
  · intro s member
    have ordered := along_visited Ordered (fun s op kept allowed => (carried s op kept allowed).1) empty run
      ordered_empty (polite.and few) s member
    exact ordered.safe
  · exact along_good Ordered carried ordered_empty (polite.and few)

/-- A destroyer waits for the one reader, who then releases. -/
theorem lifeCycle_waits :
    let run := [MapOp.addElement 0 "key" false, .openElement 1 "key", .destroyElement 2 "key", .wake 2,
      .releaseElement 1 "key", .wake 2]
    Along step Good (empty : MapState String) run := by
  intro run
  apply (lifeCycle run ?_ ?_).2
  · refine ⟨trivial, trivial, trivial, trivial, ?_, trivial, trivial⟩
    exact ⟨⟨1, "key", 0⟩, by decide, rfl, rfl⟩
  · refine ⟨trivial, ?_, trivial, trivial, trivial, trivial, trivial⟩
    change 0 + 1 < 2 ^ 32
    decide

/-- A thread that opens a key over and over again. -/
theorem reached_opens (s : MapState String) (readers count : Nat) (bound : readers < 2 ^ 32)
    (free : s.waiting = ∅) (found : s.xMap.get "key" = some ⟨some 0, readers⟩) :
    let next := reached step s (List.replicate count (MapOp.openElement 1 "key"))
    next.waiting = ∅ ∧ next.xMap.get "key" = some ⟨some 0, (readers + count) % 2 ^ 32⟩ ∧
      (⟨1, "key", 0⟩ ∈ s.handles ∨ 0 < count → ⟨1, "key", 0⟩ ∈ next.handles) := by
  induction count generalizing s readers with
  | zero =>
    rw [Nat.add_zero, Nat.mod_eq_of_lt bound]
    exact ⟨free, found, fun before => before.resolve_right (Nat.lt_irrefl 0)⟩
  | succ count ih =>
    have opened : s.step (.openElement 1 "key") = { s with
        xMap := s.xMap.insert "key" ⟨some 0, (readers + 1) % 2 ^ 32⟩
        handles := ⟨1, "key", 0⟩ :: s.handles } := by
      simp only [step, act, MapOp.thread, free, get_empty, MapState.openElement, found]
    obtain ⟨waiting, pointed, kept⟩ := ih (s.step (.openElement 1 "key")) ((readers + 1) % 2 ^ 32)
      (Nat.mod_lt _ (by decide)) (by rw [opened]; exact free) (by rw [opened]; exact get_insert_self _ _ _)
    simp only [List.replicate_succ, reached]
    refine ⟨waiting, ?_, fun _ => kept (.inl ?_)⟩
    · rw [pointed, Nat.mod_add_mod, Nat.add_assoc, Nat.add_comm 1 count]
    · rw [opened]
      exact List.mem_cons_self

/-- One element, opened so many times and then destroyed. -/
def reopening (count : Nat) : List (MapOp String) :=
  .addElement 0 "key" false :: (List.replicate count (.openElement 1 "key") ++ [.destroyElement 2 "key"])

theorem polite_reopening (count : Nat) : Along step Polite (empty : MapState String) (reopening count) := by
  apply along_of_forall
  intro op member s
  cases op with
  | releaseElement thread key => simp [reopening] at member
  | _ => trivial

/-- When the count has come round to zero, the element is deleted under its readers. -/
theorem reopening_deletes {count : Nat} (wraps : count % 2 ^ 32 = 0) (opened : 0 < count) :
    ¬ Safe (reached step (empty : MapState String) (reopening count)) := by
  intro safe
  have added : (empty : MapState String).step (.addElement 0 "key" false) =
      { (empty : MapState String) with xMap := AList.insert "key" ⟨some 0, 0⟩ ∅, added := 1 } := rfl
  rw [reopening, reached, reached_append, reached, reached] at safe
  obtain ⟨free, pointed, kept⟩ := reached_opens ((empty : MapState String).step (.addElement 0 "key" false)) 0 count
    (by decide) rfl (by rw [added]; exact get_insert_self _ _ _)
  have reader := kept (.inr opened)
  generalize reached step ((empty : MapState String).step (.addElement 0 "key" false))
    (List.replicate count (MapOp.openElement 1 "key")) = s at free pointed reader safe
  rw [Nat.zero_add, wraps] at pointed
  have destroyed : s.step (.destroyElement 2 "key") = { s with
      xMap := (s.xMap.insert "key" ⟨none, 0⟩).erase "key"
      begun := 0 :: s.begun
      deleted := 0 :: s.deleted } := by
    simp only [step, act, MapOp.thread, free, get_empty, MapState.destroyElement, pointed]
    rfl
  rw [destroyed] at safe
  exact safe.undeleted _ reader List.mem_cons_self

theorem lifeCycle_fails :
    ¬ ∀ run : List (MapOp String), Along step Polite (empty : MapState String) run →
      (∀ s ∈ visited step (empty : MapState String) run, Safe s) ∧ Along step Good (empty : MapState String) run := by
  intro claim
  have safe := (claim (reopening (2 ^ 32)) (polite_reopening _)).1 _ (reached_visited step empty _)
  exact reopening_deletes (Nat.mod_self _) (Nat.two_pow_pos 32) safe

end

end MapState

end Mantids.Threads
