import Mantids.Library.Multimap
import Mantids.Memory.Chunk

/-! Files of variables, a line for each (`varsfile.cpp`). -/

set_option autoImplicit false

namespace Mantids.Files.Vars

open Library Memory

inductive EFileError where
  | invalidFileFormat
  | invalidVarnameFormat
  | cantOpenFile
  | fileNoError
  deriving DecidableEq

abbrev colon : UInt8 := 58

abbrev newline : UInt8 := 10

/-- What is kept of a file. -/
structure File where
  lastError : EFileError
  vars : Multimap Bytes Bytes

namespace File

def new : File := ⟨.fileNoError, .empty⟩

/-- `std::getline` until it fails; `line` has been read of the current one. -/
def getLines : (line : Bytes) → Bytes → List Bytes
  | line, [] => if line = [] then [] else [line]
  | line, byte :: rest => if byte = newline then line :: getLines [] rest else getLines (line ++ [byte]) rest

/-- None where there is no name, or no separator behind it. -/
def getLineVars (line : Bytes) : Option (Bytes × Bytes) :=
  if line = [] then none
  else
    let varName := line.takeWhile (· ≠ colon)
    if line.length ≤ varName.length then none else some (varName, line.take (varName.length + 1))

/-- Up to a line that is not understood. -/
def readLines (file : File) : List Bytes → Bool × File
  | [] => (true, file)
  | line :: rest =>
    match getLineVars line with
    | none => (false, { file with lastError := .invalidFileFormat })
    | some lineVars => readLines { file with vars := file.vars.insert lineVars.1 lineVars.2 } rest

/-- No text where the file cannot be opened. -/
def load (file : File) : (content : Option Bytes) → Bool × File
  | none => (false, { file with lastError := .cantOpenFile })
  | some content => file.readLines (getLines [] content)

end File

/-! ## There and back -/

/-- Names without a separator, and neither names nor values go over a line. -/
structure Lines (vars : Multimap Bytes Bytes) : Prop where
  named : ∀ entry ∈ vars.entries, entry.1 ≠ []
  separated : ∀ entry ∈ vars.entries, colon ∉ entry.1
  names : ∀ entry ∈ vars.entries, newline ∉ entry.1
  values : ∀ entry ∈ vars.entries, newline ∉ entry.2

namespace File

section
variable {vars : Multimap Bytes Bytes} (lines : Lines vars)
include lines

end

end File

end Mantids.Files.Vars
