import Mantids.Library.Table

/-! The reader-counting map (`Threads::Safe::Map`), one locked call at a time. -/

set_option autoImplicit false

namespace Mantids.Threads

section
variable {T α : Type} [DecidableEq T]

/-- A null `rdElement` with readers left is an element that `destroyElement` waits on. -/
structure SMapElement (α : Type) where
  rdElement : Option α
  readers : Nat
  deriving DecidableEq, Repr

abbrev SafeMap (T α : Type) := Library.Table T (SMapElement α)

/-- How a call on the map ends. `waiting` is a `destroyElement` blocked on its
condition variable until the remaining readers release the element. -/
inductive Ending where
  | no
  | yes
  | waiting
  | throws
  deriving DecidableEq, Repr

namespace SafeMap

def getKeys (xMap : SafeMap T α) : List T := xMap.keys

def addElement (xMap : SafeMap T α) (key : T) (element : α) : Bool × SafeMap T α :=
  match xMap.get key with
  | none => (true, xMap.insert key ⟨some element, 0⟩)
  | some _ => (false, xMap)

def openElement (xMap : SafeMap T α) (key : T) : Option α × SafeMap T α :=
  match xMap.get key with
  | some ⟨some element, readers⟩ => (some element, xMap.insert key ⟨some element, readers + 1⟩)
  | _ => (none, xMap)

/-- Releasing the last reader of an element under destruction wakes up its
`destroyElement`, which erases it. -/
def releaseElement (xMap : SafeMap T α) (key : T) : Ending × SafeMap T α :=
  match xMap.get key with
  | none => (.no, xMap)
  | some ⟨_, 0⟩ => (.throws, xMap)
  | some ⟨none, 1⟩ => (.yes, xMap.erase key)
  | some ⟨element, readers + 1⟩ => (.yes, xMap.insert key ⟨element, readers⟩)

def destroyElement (xMap : SafeMap T α) (key : T) : Ending × SafeMap T α :=
  match xMap.get key with
  | some ⟨some _, 0⟩ => (.yes, xMap.erase key)
  | some ⟨some _, readers + 1⟩ => (.waiting, xMap.insert key ⟨none, readers + 1⟩)
  | _ => (.no, xMap)

/-- Changes the element in place, as a holder of its pointer does. -/
def modifyElement (xMap : SafeMap T α) (key : T) (change : α → α) : SafeMap T α :=
  match xMap.get key with
  | some ⟨some element, readers⟩ => xMap.insert key ⟨some (change element), readers⟩
  | _ => xMap

/-- Nobody reads and nobody waits. -/
def Idle (xMap : SafeMap T α) : Prop :=
  ∀ key entry, xMap.get key = some entry → entry.rdElement.isSome ∧ entry.readers = 0

end SafeMap

end

end Mantids.Threads
