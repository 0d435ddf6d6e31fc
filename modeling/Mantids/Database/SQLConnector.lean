import Mantids.Library.Runs
import Mantids.Library.Table

/-! An SQL connector and its queries (`sqlconnector.cpp`, `query.cpp`), each step a section of a call
that touches the connector. -/

set_option autoImplicit false

namespace Mantids.Database

open Library

/-- Where a query is between its construction and the end of its destructor. -/
inductive QueryState where
  /-- In `createQuery`, behind `createQuery0`. -/
  | created
  /-- In `setSqlConnector`, before it has the database lock. -/
  | locking
  | ready
  /-- The lock was not obtained: the query will not unlock it. -/
  | refused
  /-- In the destructor, detached, with the lock to give back. -/
  | unlocking
  deriving DecidableEq

/-- The query is in the connector's set. -/
def QueryState.isAttached : QueryState → Bool
  | locking | ready | refused => true
  | created | unlocking => false

inductive Destruction where
  | notCalled
  /-- In `cvEmptyQuerySet.wait`. -/
  | waiting
  | returned
  deriving DecidableEq

/-- Next to the connector stand its queries, by their address, and what happened so far. -/
structure SQLConnector where
  maxQueryLockMilliseconds : Nat
  finalized : Bool
  querySet : List Nat
  /-- The query that has `mtDatabaseLock`. -/
  mtDatabaseLock : Option Nat
  queries : Table Nat QueryState
  destruction : Destruction
  attached : List Nat
  detached : List Nat
  /-- The connector was used after its destructor had returned. -/
  misused : Bool

inductive ConnectorOp where
  | setMaxQueryLockMilliseconds (value : Nat)
  | createQuery0 (query : Nat)
  | attachQuery (query : Nat)
  /-- The end of `setSqlConnector`, with the lock or without it. -/
  | setSqlConnector (query : Nat) (acquired : Bool)
  | exec (query : Nat)
  | detachQuery (query : Nat)
  | unlock (query : Nat)
  /-- The connector's destructor begins to wait. -/
  | finalize
  | returns

namespace SQLConnector

def new : SQLConnector where
  maxQueryLockMilliseconds := 10000
  finalized := false
  querySet := []
  mtDatabaseLock := none
  queries := ∅
  destruction := .notCalled
  attached := []
  detached := []
  misused := false

def touch (s : SQLConnector) : SQLConnector := { s with misused := s.misused || s.destruction = .returned }

/-- A new query has an address of its own, and a connector that is there. -/
def createQuery0 (s : SQLConnector) (query : Nat) : SQLConnector :=
  if s.destruction = .returned ∨ (s.queries.get query).isSome then s
  else { s with queries := s.queries.insert query .created }

/-- A finished connector has the query deleted. -/
def attachQuery (s : SQLConnector) (query : Nat) : SQLConnector :=
  if s.queries.get query = some .created then
    if s.finalized then { s.touch with queries := s.queries.erase query }
    else
      { s.touch with
        querySet := query :: s.querySet
        queries := s.queries.insert query .locking
        attached := query :: s.attached }
  else s

/-- Without a time limit the lock is waited for. -/
def setSqlConnector (s : SQLConnector) (query : Nat) (acquired : Bool) : SQLConnector :=
  if s.queries.get query = some .locking then
    if acquired then
      if s.mtDatabaseLock = none then
        { s.touch with mtDatabaseLock := some query, queries := s.queries.insert query .ready }
      else s
    else if s.maxQueryLockMilliseconds = 0 then s
    else { s.touch with queries := s.queries.insert query .refused }
  else s

def exec (s : SQLConnector) (query : Nat) : SQLConnector := if s.queries.get query = some .ready then s.touch else s

/-- The first thing a query's destructor does. -/
def detachQuery (s : SQLConnector) (query : Nat) : SQLConnector :=
  match s.queries.get query with
  | some .ready =>
    { s.touch with
      querySet := s.querySet.erase query
      queries := s.queries.insert query .unlocking
      detached := query :: s.detached }
  | some .refused =>
    { s.touch with
      querySet := s.querySet.erase query
      queries := s.queries.erase query
      detached := query :: s.detached }
  | _ => s

/-- The last thing it does. -/
def unlock (s : SQLConnector) (query : Nat) : SQLConnector :=
  if s.queries.get query = some .unlocking then
    { s.touch with mtDatabaseLock := none, queries := s.queries.erase query }
  else s

def step (s : SQLConnector) : ConnectorOp → SQLConnector
  | .setMaxQueryLockMilliseconds value => { s with maxQueryLockMilliseconds := value }
  | .createQuery0 query => s.createQuery0 query
  | .attachQuery query => s.attachQuery query
  | .setSqlConnector query acquired => s.setSqlConnector query acquired
  | .exec query => s.exec query
  | .detachQuery query => s.detachQuery query
  | .unlock query => s.unlock query
  | .finalize => if s.destruction = .notCalled then { s with finalized := true, destruction := .waiting } else s
  | .returns => if s.destruction = .waiting ∧ s.querySet = [] then { s with destruction := .returned } else s

/-- Nobody uses the connector once it is gone, or is about to; and each query of the set has been
attached once more often than detached, the others as often. -/
structure Outlives (s : SQLConnector) : Prop where
  unused : s.misused = false
  alone : s.destruction = .returned → ∀ query, s.queries.get query = none
  once : ∀ query, s.attached.count query = s.detached.count query + s.querySet.count query
  distinct : s.querySet.Nodup

/-- When the destructor has found the set empty, no query is on its way into it, and none has still to unlock. -/
def Settled (s : SQLConnector) : ConnectorOp → Prop
  | .returns => s.destruction = .waiting → s.querySet = [] →
      ∀ query, s.queries.get query ≠ some .created ∧ s.queries.get query ≠ some .unlocking
  | _ => True

/-! ## The invariant -/

/-- Next to it, the queries in the set are those that have been attached. -/
structure Inv (s : SQLConnector) : Prop extends Outlives s where
  members : ∀ query, query ∈ s.querySet ↔ ∃ state, s.queries.get query = some state ∧ state.isAttached = true

theorem inv_new : Inv new where
  unused := rfl
  alone := fun impossible => by cases impossible
  once := fun _ => rfl
  distinct := List.nodup_nil
  members := by
    intro query
    constructor
    · intro member
      cases member
    · intro found
      obtain ⟨state, found, -⟩ := found
      cases found

section
variable {s : SQLConnector} {query : Nat} {state : QueryState}

/-- A connector with a query is there. -/
theorem Inv.alive (inv : Inv s) (found : s.queries.get query = some state) : s.destruction ≠ .returned := by
  intro returned
  rw [inv.alone returned query] at found
  cases found

theorem Inv.touch (inv : Inv s) (found : s.queries.get query = some state) : s.touch = s := by
  have alive : decide (s.destruction = .returned) = false := decide_eq_false (inv.alive found)
  unfold SQLConnector.touch
  rw [alive, Bool.or_false]

theorem Inv.notMem (inv : Inv s) (found : s.queries.get query = some state) (apart : state.isAttached = false) :
    query ∉ s.querySet := by
  intro member
  obtain ⟨other, same, attached⟩ := (inv.members query).mp member
  rw [found] at same
  cases same
  rw [apart] at attached
  cases attached

theorem Inv.mem (inv : Inv s) (found : s.queries.get query = some state) (attached : state.isAttached = true) :
    query ∈ s.querySet := (inv.members query).mpr ⟨state, found, attached⟩

/-- Who is in the set when one query's state changes. -/
theorem Inv.members_insert (inv : Inv s) {new : QueryState} {querySet : List Nat}
    (here : query ∈ querySet ↔ new.isAttached = true) (others : ∀ other, other ≠ query → (other ∈ querySet ↔ other ∈ s.querySet))
    (other : Nat) :
    other ∈ querySet ↔ ∃ state, Table.get (s.queries.insert query new) other = some state ∧ state.isAttached = true := by
  rw [get_insert]
  split
  · rename_i same
    subst same
    simp [here]
  · rename_i different
    rw [others other different]
    exact inv.members other

theorem Inv.members_erase (inv : Inv s) {querySet : List Nat} (here : query ∉ querySet)
    (others : ∀ other, other ≠ query → (other ∈ querySet ↔ other ∈ s.querySet)) (other : Nat) :
    other ∈ querySet ↔ ∃ state, Table.get (s.queries.erase query) other = some state ∧ state.isAttached = true := by
  rw [get_erase]
  split
  · rename_i same
    subst same
    simp [here]
  · rename_i different
    rw [others other different]
    exact inv.members other

theorem Inv.createQuery0 (inv : Inv s) (query : Nat) : Inv (s.createQuery0 query) := by
  unfold SQLConnector.createQuery0
  split
  · exact inv
  · rename_i fresh
    rw [not_or] at fresh
    refine ⟨⟨inv.unused, fun returned => absurd returned fresh.1, inv.once, inv.distinct⟩, ?_⟩
    apply inv.members_insert
    · constructor
      · intro member
        obtain ⟨state, found, -⟩ := (inv.members query).mp member
        exact absurd (Option.isSome_of_eq_some found) fresh.2
      · exact fun impossible => by cases impossible
    · exact fun _ _ => Iff.rfl

theorem Inv.attachQuery (inv : Inv s) (query : Nat) : Inv (s.attachQuery query) := by
  unfold SQLConnector.attachQuery
  split
  · rename_i created
    have alive := inv.alive created
    have outside := inv.notMem created rfl
    rw [inv.touch created]
    split
    · refine ⟨⟨inv.unused, fun returned => absurd returned alive, inv.once, inv.distinct⟩, ?_⟩
      exact inv.members_erase outside fun _ _ => Iff.rfl
    · refine ⟨⟨inv.unused, fun returned => absurd returned alive, ?_, ?_⟩, ?_⟩
      · intro other
        have before := inv.once other
        simp only [List.count_cons]
        omega
      · exact List.nodup_cons.mpr ⟨outside, inv.distinct⟩
      · apply inv.members_insert
        · exact iff_of_true List.mem_cons_self rfl
        · intro other different
          rw [List.mem_cons, or_iff_right different]
  · exact inv

/-- An attached query that stays attached. -/
theorem Inv.changes (inv : Inv s) (found : s.queries.get query = some state) (attached : state.isAttached = true)
    {new : QueryState} (stays : new.isAttached = true) (mtDatabaseLock : Option Nat) :
    Inv { s with mtDatabaseLock := mtDatabaseLock, queries := s.queries.insert query new } := by
  refine ⟨⟨inv.unused, fun returned => absurd returned (inv.alive found), inv.once, inv.distinct⟩, ?_⟩
  apply inv.members_insert
  · exact iff_of_true (inv.mem found attached) stays
  · exact fun _ _ => Iff.rfl

theorem Inv.setSqlConnector (inv : Inv s) (query : Nat) (acquired : Bool) : Inv (s.setSqlConnector query acquired) := by
  unfold SQLConnector.setSqlConnector
  split
  · rename_i locking
    rw [inv.touch locking]
    split
    · split
      · exact inv.changes locking rfl rfl _
      · exact inv
    · split
      · exact inv
      · exact inv.changes locking rfl rfl _
  · exact inv

theorem Inv.exec (inv : Inv s) (query : Nat) : Inv (s.exec query) := by
  unfold SQLConnector.exec
  split
  · rename_i ready
    rw [inv.touch ready]
    exact inv
  · exact inv

theorem Inv.once_erase (inv : Inv s) (member : query ∈ s.querySet) (other : Nat) :
    s.attached.count other = (query :: s.detached).count other + (s.querySet.erase query).count other := by
  have before := inv.once other
  have present := List.count_pos_iff.mpr member
  rw [List.count_erase, List.count_cons]
  by_cases same : query = other
  · subst same
    simp only [beq_self_eq_true, if_true]
    omega
  · simp only [beq_iff_eq, same, if_false]
    omega

theorem Inv.detachQuery (inv : Inv s) (query : Nat) : Inv (s.detachQuery query) := by
  have outside : query ∉ s.querySet.erase query := inv.distinct.not_mem_erase
  have others : ∀ other, other ≠ query → (other ∈ s.querySet.erase query ↔ other ∈ s.querySet) :=
    fun other different => List.mem_erase_of_ne different
  unfold SQLConnector.detachQuery
  split
  · rename_i ready
    rw [inv.touch ready]
    refine ⟨⟨inv.unused, fun returned => absurd returned (inv.alive ready), ?_, inv.distinct.erase query⟩, ?_⟩
    · exact inv.once_erase (inv.mem ready rfl)
    · apply inv.members_insert
      · exact iff_of_false outside (by decide)
      · exact others
  · rename_i refused
    rw [inv.touch refused]
    refine ⟨⟨inv.unused, fun returned => absurd returned (inv.alive refused), ?_, inv.distinct.erase query⟩, ?_⟩
    · exact inv.once_erase (inv.mem refused rfl)
    · exact inv.members_erase outside others
  · exact inv

theorem Inv.unlock (inv : Inv s) (query : Nat) : Inv (s.unlock query) := by
  unfold SQLConnector.unlock
  split
  · rename_i unlocking
    rw [inv.touch unlocking]
    refine ⟨⟨inv.unused, fun returned => absurd returned (inv.alive unlocking), inv.once, inv.distinct⟩, ?_⟩
    exact inv.members_erase (inv.notMem unlocking rfl) fun _ _ => Iff.rfl
  · exact inv

/-- With an empty set, a query is on its way into it or has still to unlock. -/
theorem Inv.state_of_empty (inv : Inv s) (empty : s.querySet = []) (found : s.queries.get query = some state) :
    state = .created ∨ state = .unlocking := by
  have apart : ¬state.isAttached = true := by
    intro attached
    have member := inv.mem found attached
    rw [empty] at member
    cases member
  cases state with
  | created => exact .inl rfl
  | unlocking => exact .inr rfl
  | locking => exact absurd rfl apart
  | ready => exact absurd rfl apart
  | refused => exact absurd rfl apart

theorem Inv.step (inv : Inv s) {op : ConnectorOp} (settled : s.Settled op) : Inv (s.step op) := by
  cases op with
  | setMaxQueryLockMilliseconds value => exact ⟨⟨inv.unused, inv.alone, inv.once, inv.distinct⟩, inv.members⟩
  | createQuery0 query => exact inv.createQuery0 query
  | attachQuery query => exact inv.attachQuery query
  | setSqlConnector query acquired => exact inv.setSqlConnector query acquired
  | exec query => exact inv.exec query
  | detachQuery query => exact inv.detachQuery query
  | unlock query => exact inv.unlock query
  | finalize =>
    rw [SQLConnector.step]
    split
    · exact ⟨⟨inv.unused, (fun impossible => by cases impossible), inv.once, inv.distinct⟩, inv.members⟩
    · exact inv
  | returns =>
    rw [SQLConnector.step]
    split
    · rename_i done
      refine ⟨⟨inv.unused, fun _ query => ?_, inv.once, inv.distinct⟩, inv.members⟩
      have gone := settled done.1 done.2 query
      cases found : s.queries.get query with
      | none => rfl
      | some state =>
        rcases inv.state_of_empty done.2 found with rfl | rfl
        · exact absurd found gone.1
        · exact absurd found gone.2
    · exact inv

/-- What the destructor leaves behind shows at once. -/
theorem outlives_step_iff (inv : Inv s) (op : ConnectorOp) : Outlives (s.step op) ↔ s.Settled op := by
  constructor
  · intro outlives
    cases op with
    | returns =>
      intro waits empty query
      rw [SQLConnector.step, if_pos ⟨waits, empty⟩] at outlives
      have alone : s.queries.get query = none := outlives.alone rfl query
      rw [alone]
      exact ⟨by decide, by decide⟩
    | _ => trivial
  · exact fun settled => (inv.step settled).toOutlives

end

/-! ## Every interleaving -/

theorem outlives_iff (run : List ConnectorOp) :
    (∀ s ∈ visited step new run, s.Outlives) ↔ Along step Settled new run := by
  rw [visited_iff_along, and_iff_right inv_new.toOutlives]
  apply along_iff Inv
  · exact fun _ op inv => outlives_step_iff inv op
  · exact fun _ op inv outlives => inv.step ((outlives_step_iff inv op).mp outlives)
  · exact inv_new

/-- The destructor returns between the two steps of a query's own. -/
theorem outlived : ¬∀ run, ∀ s ∈ visited step new run, s.Outlives := by
  intro all
  have last := all [.createQuery0 1, .attachQuery 1, .setSqlConnector 1 true, .finalize, .detachQuery 1, .returns,
    .unlock 1] _ (reached_visited step new _)
  have unused := last.unused
  revert unused
  decide

end SQLConnector

end Mantids.Database
