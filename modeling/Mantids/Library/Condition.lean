import Mathlib

/-! Condition variables: which of the threads that wait have been notified, and which
notifications are still to come. Who waits is part of the state around them. -/

set_option autoImplicit false

namespace Library

structure Condition (T : Type) where
  /-- Notified, and without the lock again so far. -/
  woken : List T
  /-- The calls of `notify_one` and of `notify_all` to come. -/
  ones : Nat
  alls : Nat

namespace Condition

section
variable {T : Type}

def new : Condition T := ⟨[], 0, 0⟩

def announceOne (c : Condition T) : Condition T := { c with ones := c.ones + 1 }

def announceAll (c : Condition T) : Condition T := { c with alls := c.alls + 1 }

def notifyAll (c : Condition T) (waiting : List T) : Condition T :=
  if c.alls = 0 then c else { c with woken := waiting ++ c.woken, alls := c.alls - 1 }

/-- For somebody who waits: no notification came, and none is to come. -/
def Stranded (c : Condition T) (t : T) : Prop := t ∉ c.woken ∧ c.ones = 0 ∧ c.alls = 0

variable [DecidableEq T]

/-- The lock is taken again. -/
def wake (c : Condition T) (t : T) : Condition T := { c with woken := c.woken.filter (· ≠ t) }

/-- One of those who wait for a notification gets it; it is lost only where nobody does. -/
def notifyOne (c : Condition T) (waiting : List T) (choice : T) : Condition T :=
  if c.ones = 0 then c
  else if choice ∈ waiting ∧ choice ∉ c.woken then { c with woken := choice :: c.woken, ones := c.ones - 1 }
  else if ∀ t ∈ waiting, t ∈ c.woken then { c with ones := c.ones - 1 }
  else c

/-- Everybody who waits has been notified, or will be. -/
def Covers (c : Condition T) (waiting : List T) : Prop := 0 < c.alls ∨ ∀ t ∈ waiting, t ∈ c.woken

end

section
variable {T : Type} {c : Condition T} {waiting : List T} {t : T}

theorem Covers.not_stranded (covers : c.Covers waiting) (member : t ∈ waiting) : ¬c.Stranded t := by
  intro stranded
  rcases covers with coming | woken
  · exact absurd stranded.2.2 (Nat.pos_iff_ne_zero.mp coming)
  · exact stranded.1 (woken t member)

theorem covers_announceAll : c.announceAll.Covers waiting := .inl (Nat.succ_pos _)

theorem Covers.announceOne (covers : c.Covers waiting) : c.announceOne.Covers waiting := covers

theorem Covers.mono (covers : c.Covers waiting) {fewer : List T} (less : ∀ t ∈ fewer, t ∈ waiting) :
    c.Covers fewer :=
  covers.imp_right fun woken t member => woken t (less t member)

theorem Covers.notifyAll (covers : c.Covers waiting) : (c.notifyAll waiting).Covers waiting := by
  unfold Condition.notifyAll
  split
  · exact covers
  · exact .inr fun t member => List.mem_append_left _ member

variable [DecidableEq T]

theorem Covers.wake (covers : c.Covers waiting) {others : List T} (others_of : ∀ s ∈ others, s ∈ waiting ∧ s ≠ t) :
    (c.wake t).Covers others := by
  apply covers.imp_right
  intro woken s member
  have other := others_of s member
  exact List.mem_filter.mpr ⟨woken s other.1, decide_eq_true other.2⟩

theorem Covers.notifyOne (covers : c.Covers waiting) (choice : T) : (c.notifyOne waiting choice).Covers waiting := by
  unfold Condition.notifyOne
  split
  · exact covers
  · split
    · exact covers.imp_right fun woken t member => List.mem_cons_of_mem _ (woken t member)
    · split
      · exact covers
      · exact covers

end

end Condition

end Library
