import Mantids.Memory.CopyOut

/-! Streams that are written to (`streamableobject.cpp`), and copies of containers to them (`b_base.cpp`,
`b_chunks.cpp`, `b_mem.cpp`). -/

set_option autoImplicit false

namespace Mantids.Memory.StreamableObject

/-- What a write reports. -/
structure Status where
  bytesWritten : Nat
  succeed : Bool
  finish : Bool
  deriving DecidableEq, Repr

namespace Status

def new : Status := ⟨0, true, false⟩

/-- `+=`. -/
def add (cur x : Status) : Status :=
  ⟨cur.bytesWritten + x.bytesWritten, cur.succeed && x.succeed, cur.finish || x.finish⟩

/-- All of so many bytes. -/
def all (count : Nat) : Status := ⟨count, true, false⟩

@[simp] theorem new_add_all (count : Nat) : new.add (all count) = all count := by
  simp [new, add, all]

@[simp] theorem all_add_all (first second : Nat) : (all first).add (all second) = all (first + second) := rfl

end Status

section
variable {σ : Type} (write : σ → Bytes → Status × σ)

/-- The loop of `writeFullStream`; a write that reports no byte is repeated, and `none` is left of more repetitions
than there are turns. -/
def writeFullStreamLoop (buf : Bytes) : (turns : Nat) → (cur : Status) → σ → Option (Status × σ)
  | 0, cur, out => if cur.bytesWritten < buf.length then none else some (cur, out)
  | turns + 1, cur, out =>
    if cur.bytesWritten < buf.length then
      let (written, out) := write out (buf.drop cur.bytesWritten)
      let cur := cur.add written
      if !cur.succeed || cur.finish then some (cur, out) else writeFullStreamLoop buf turns cur out
    else some (cur, out)

def writeFullStream (buf : Bytes) (out : σ) : Option (Status × σ) :=
  writeFullStreamLoop write buf buf.length .new out

/-- `copyToSOUsingCleanVector`: chunk by chunk, as long as just the chunk's bytes are reported. -/
def copyToSOUsingCleanVector : List Bytes → (acum : Status) → σ → Option (Nat × σ)
  | [], acum, out => some (acum.bytesWritten, out)
  | chunk :: rest, acum, out =>
    match writeFullStream write chunk out with
    | none => none
    | some (cur, out) =>
      let acum := acum.add cur
      if !cur.succeed || decide (cur.bytesWritten ≠ chunk.length) || cur.finish then some (acum.bytesWritten, out)
      else copyToSOUsingCleanVector rest acum out

/-- A stream that accepts everything: it takes all of each write and says so. -/
def Accepting (accepted : σ → Bytes) : Prop :=
  ∀ out buf, (write out buf).1 = .all buf.length ∧ accepted (write out buf).2 = accepted out ++ buf

end

section
variable {σ : Type} {write : σ → Bytes → Status × σ} {buf : Bytes} {out : σ}

theorem writeFullStream_nil : writeFullStream write [] out = some (.new, out) := rfl

/-- A write that reports no less than there is, is the only one. -/
theorem writeFullStream_once (filled : buf ≠ []) {count : Nat} (enough : buf.length ≤ count)
    (status : (write out buf).1 = .all count) :
    writeFullStream write buf out = some (.all count, (write out buf).2) := by
  obtain ⟨byte, rest, rfl⟩ := List.exists_cons_of_ne_nil filled
  have some : Status.new.bytesWritten < (byte :: rest).length := Nat.zero_lt_succ _
  have done : ¬(Status.all count).bytesWritten < (byte :: rest).length := Nat.not_lt.mpr enough
  have start : (byte :: rest).drop Status.new.bytesWritten = byte :: rest := rfl
  rw [writeFullStream, List.length_cons, writeFullStreamLoop, if_pos some]
  simp only [start, status, Status.new_add_all]
  rw [if_neg (show ¬(!(Status.all count).succeed || (Status.all count).finish) = true from Bool.false_ne_true)]
  cases rest with
  | nil => exact if_neg done
  | cons second more => exact if_neg done

theorem writeFullStream_taken (filled : buf ≠ []) (status : (write out buf).1 = .all buf.length) :
    writeFullStream write buf out = some (.all buf.length, (write out buf).2) :=
  writeFullStream_once filled (Nat.le_refl _) status

/-- One that fails is the last. -/
theorem writeFullStream_failed (filled : buf ≠ []) (status : (write out buf).1.succeed = false) :
    writeFullStream write buf out = some (Status.new.add (write out buf).1, (write out buf).2) := by
  obtain ⟨byte, rest, rfl⟩ := List.exists_cons_of_ne_nil filled
  have some : Status.new.bytesWritten < (byte :: rest).length := Nat.zero_lt_succ _
  have start : (byte :: rest).drop Status.new.bytesWritten = byte :: rest := rfl
  have failed : (Status.new.add (write out (byte :: rest)).1).succeed = false := by
    rw [Status.add, status, Bool.and_false]
  rw [writeFullStream, List.length_cons, writeFullStreamLoop, if_pos some]
  simp only [start, failed, Bool.not_false, Bool.true_or, if_true]

end

section
variable {σ : Type} {write : σ → Bytes → Status × σ} {accepted : σ → Bytes} (accepting : Accepting write accepted)
include accepting

end

end Mantids.Memory.StreamableObject
