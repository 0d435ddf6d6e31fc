import Mantids.Library.Splitting
import Mantids.Protocols.FileServer

/-! No URI leads out of the server directory: what the file functions report lies behind
its real path, and behind its names where the file exists. -/

set_option autoImplicit false

namespace Mantids.HTTP

open Library Memory MIME

/-! ## Canonical paths -/

/-- The names, each behind a slash, and one more slash. -/
def slashed (names : List Bytes) : Bytes := (names.flatMap fun name => 47 :: name) ++ [47]

theorem slashed_cons (name : Bytes) (rest : List Bytes) : slashed (name :: rest) = 47 :: (name ++ slashed rest) := by
  simp [slashed]

theorem slashed_begins (names : List Bytes) : ∃ rest, slashed names = 47 :: rest := by
  cases names with
  | nil => exact ⟨[], rfl⟩
  | cons name rest => exact ⟨_, slashed_cons name rest⟩

/-- Names without a slash are told apart by the slashes. -/
theorem names_prefix {names others : List Bytes} (valid : ∀ name ∈ names, name ≠ [] ∧ 47 ∉ name)
    (validOthers : ∀ name ∈ others, name ≠ [] ∧ 47 ∉ name) (inside : slashed names <+: slashed others) :
    names <+: others := by
  induction names generalizing others with
  | nil => exact List.nil_prefix
  | cons name rest ih =>
    rw [List.forall_mem_cons] at valid
    obtain ⟨⟨some, unslashed⟩, valid⟩ := valid
    rw [slashed_cons] at inside
    cases others with
    | nil =>
      -- the root has nothing behind its slash
      have short := inside.length_le
      have long := List.length_pos_iff.mpr some
      have root : slashed [] = [47] := rfl
      rw [root, List.length_cons, List.length_append, List.length_singleton] at short
      omega
    | cons other others =>
      rw [List.forall_mem_cons] at validOthers
      obtain ⟨⟨-, unslashedOther⟩, validOthers⟩ := validOthers
      rw [slashed_cons, List.cons_prefix_cons] at inside
      obtain ⟨-, behind, same⟩ := inside
      obtain ⟨more, begins⟩ := slashed_begins rest
      obtain ⟨moreOther, beginsOther⟩ := slashed_begins others
      have equal : name = other := by
        have part := congrArg (List.takeWhile (· ≠ 47)) same
        rw [begins, beginsOther, List.append_assoc, List.cons_append, takeWhile_ne unslashed,
          takeWhile_ne unslashedOther] at part
        exact part
      rw [equal, List.append_assoc, List.append_cancel_left_eq] at same
      rw [equal, List.cons_prefix_cons]
      exact ⟨rfl, ih valid validOthers ⟨behind, same⟩⟩

namespace CanonicalPath

theorem unslashed (path : CanonicalPath) : ∀ name ∈ path.names, name ≠ [] ∧ 47 ∉ name := by
  intro name member
  obtain ⟨some, unslashed, -⟩ := path.valid name member
  exact ⟨some, unslashed⟩

theorem withSlash_bytes (path : CanonicalPath) : withSlash path.bytes = slashed path.names := by
  rcases List.eq_nil_or_concat path.names with none | ⟨front, last, names⟩
  · simp [withSlash, bytes, slashed, none]
  · obtain ⟨some, unslashed⟩ := path.unslashed last (by simp [names])
    have ends : path.bytes.getLast? ≠ Option.some 47 := by
      intro slash
      have bytes : path.bytes = (front.flatMap fun name => 47 :: name) ++ [47] ++ last := by
        simp [bytes, names]
      rw [bytes, List.getLast?_append_of_ne_nil _ some] at slash
      exact unslashed (List.mem_of_getLast? slash)
    rw [withSlash, if_neg ends]
    simp [bytes, slashed, names]

theorem bytes_prefix_slashed (path : CanonicalPath) : path.bytes <+: slashed path.names := by
  rw [← withSlash_bytes, withSlash]
  split
  · exact List.prefix_refl _
  · exact List.prefix_append _ _

end CanonicalPath

/-! ## The directory -/

theorem realServerDir_eq_some_iff {files : FileSystem} {sServerDir dir : Bytes} :
    realServerDir files sServerDir = some dir ↔
      ∃ root errno, files.realpath (cString sServerDir) = .resolved root errno ∧ dir = slashed root.names := by
  unfold realServerDir
  split
  · rename_i root errno answer
    rw [Option.some.injEq, root.withSlash_bytes]
    constructor
    · intro same
      exact ⟨root, errno, answer, same.symm⟩
    · rintro ⟨root', errno', answer', rfl⟩
      rw [answer] at answer'
      cases answer'
      rfl
  · rename_i answer
    simp [answer]

theorem isTransversal_eq_false_iff {dir path : Bytes} : isTransversal dir path = false ↔ dir <+: path := by
  rw [isTransversal, Bool.or_eq_false_iff, decide_eq_false_iff_not, decide_eq_false_iff_not, not_not, Nat.not_lt]
  constructor
  · rintro ⟨-, same⟩
    rw [← same]
    exact List.take_prefix _ _
  · intro inside
    exact ⟨inside.length_le, List.prefix_iff_eq_take.mp inside |>.symm⟩

/-- Behind the directory as a text, and by its names where there are names. -/
structure Inside (root : CanonicalPath) (full : Bytes) : Prop where
  text : withSlash root.bytes <+: full
  names : ∀ path : CanonicalPath, full = path.bytes ∨ full = withSlash path.bytes → root.names <+: path.names

theorem inside_iff {root : CanonicalPath} {full : Bytes} : Inside root full ↔ slashed root.names <+: full := by
  rw [← root.withSlash_bytes]
  constructor
  · exact Inside.text
  · intro text
    refine ⟨text, fun path either => ?_⟩
    rw [root.withSlash_bytes] at text
    apply names_prefix root.unslashed path.unslashed
    rcases either with same | same
    · rw [same] at text
      exact text.trans path.bytes_prefix_slashed
    · rwa [same, path.withSlash_bytes] at text

/-- A success reports what is inside, unless it is a static element. -/
def Reports (inside : CanonicalPath → Bytes → Prop) (files : FileSystem) (sServerDir : Bytes)
    (success : Bool) (info : LocalRequestedFileInfo) : Prop :=
  success = true → ¬ascii "MEM:" <+: info.sRealFullPath →
    ∃ root errno, files.realpath (cString sServerDir) = .resolved root errno ∧ inside root info.sRealFullPath

theorem reports_of_prefix {files : FileSystem} {sServerDir dir : Bytes} (real : realServerDir files sServerDir = some dir)
    {success : Bool} {info : LocalRequestedFileInfo} (behind : success = true → dir <+: info.sRealFullPath) :
    Reports Inside files sServerDir success info := by
  intro succeeds _
  obtain ⟨root, errno, answer, rfl⟩ := realServerDir_eq_some_iff.mp real
  exact ⟨root, errno, answer, inside_iff.mpr (behind succeeds)⟩

theorem reports_of_failure {files : FileSystem} {sServerDir : Bytes} {info : LocalRequestedFileInfo} :
    Reports Inside files sServerDir false info := by
  intro succeeds
  cases succeeds

section
variable (files : FileSystem) (sServerDir : Bytes)

theorem reports_0NE (uri : Bytes) :
    Reports Inside files sServerDir (getLocalFilePathFromURI0NE files uri sServerDir).1
      (getLocalFilePathFromURI0NE files uri sServerDir).2 := by
  unfold getLocalFilePathFromURI0NE
  split
  · exact reports_of_failure
  · rename_i dir real
    dsimp only
    split_ifs with missing transversal
    · exact reports_of_failure
    · apply reports_of_prefix real
      intro _
      exact isTransversal_eq_false_iff.mp (Bool.eq_false_iff.mpr transversal)
    · exact reports_of_failure

theorem reports_0E (uri : Bytes) :
    Reports Inside files sServerDir (getLocalFilePathFromURI0E files uri sServerDir).1
      (getLocalFilePathFromURI0E files uri sServerDir).2 := by
  unfold getLocalFilePathFromURI0E
  split
  · exact reports_of_failure
  · rename_i dir real
    dsimp only
    split
    · exact reports_of_failure
    · generalize (if (files.stat _).2.isDir then _ else _ : Bytes) = sFullComputedRealPath
      split_ifs with transversal
      · exact reports_of_failure
      · apply reports_of_prefix real
        intro _
        exact isTransversal_eq_false_iff.mp (Bool.eq_false_iff.mpr transversal)

/-- A success is a static element, or a path that has passed the check and, if a file is
streamed, that file. -/
theorem getLocalFilePathFromURI2_true {server : FileServer} {defaultFileAppend : Bytes} {dontMapExecutables : Bool}
    (succeeds : (server.getLocalFilePathFromURI2 files sServerDir defaultFileAppend dontMapExecutables).1 = true) :
    let answer := server.getLocalFilePathFromURI2 files sServerDir defaultFileAppend dontMapExecutables
    ascii "MEM:" <+: answer.2.1.sRealFullPath ∨
      ∃ dir, realServerDir files sServerDir = some dir ∧ dir <+: answer.2.1.sRealFullPath ∧
        (answer.2.2.serverResponse.dataStreamer = server.serverResponse.dataStreamer ∨
          answer.2.2.serverResponse.dataStreamer = some (.file answer.2.1.sRealFullPath)) := by
  revert succeeds
  unfold FileServer.getLocalFilePathFromURI2
  split
  · intro succeeds
    cases succeeds
  · rename_i dir real
    dsimp only
    split
    · intro _
      exact .inl (List.prefix_append _ _)
    · split
      · intro succeeds
        cases succeeds
      · rename_i path errno answer
        generalize full : (if (files.stat path.bytes).2.isDir then withSlash path.bytes else path.bytes) =
          sFullComputedPath
        have checked := @isTransversal_eq_false_iff dir sFullComputedPath
        split_ifs with transversal isDir appended isReg executable mapped
        all_goals intro succeeds
        · cases succeeds
        · cases succeeds
        · exact .inr ⟨dir, real, checked.mp (Bool.eq_false_iff.mpr transversal), .inl rfl⟩
        · exact .inr ⟨dir, real, checked.mp (Bool.eq_false_iff.mpr transversal), .inl rfl⟩
        · exact .inr ⟨dir, real, checked.mp (Bool.eq_false_iff.mpr transversal), .inr (by simp)⟩
        · cases succeeds
        · cases succeeds

end

/-- What the three functions report for any URI is inside the directory. -/
def Contains (inside : CanonicalPath → Bytes → Prop) : Prop :=
  ∀ (files : FileSystem) (sServerDir : Bytes) (server : FileServer) (uri defaultFileAppend : Bytes)
    (dontMapExecutables : Bool),
    Reports inside files sServerDir
        (server.getLocalFilePathFromURI2 files sServerDir defaultFileAppend dontMapExecutables).1
        (server.getLocalFilePathFromURI2 files sServerDir defaultFileAppend dontMapExecutables).2.1 ∧
      Reports inside files sServerDir (getLocalFilePathFromURI0E files uri sServerDir).1
        (getLocalFilePathFromURI0E files uri sServerDir).2 ∧
      Reports inside files sServerDir (getLocalFilePathFromURI0NE files uri sServerDir).1
        (getLocalFilePathFromURI0NE files uri sServerDir).2

/-- No URI leads out of the server directory. -/
theorem contains_inside : Contains Inside := by
  intro files sServerDir server uri defaultFileAppend dontMapExecutables
  constructor
  · intro succeeds real
    obtain memory | ⟨dir, opened, behind, -⟩ := getLocalFilePathFromURI2_true files sServerDir succeeds
    · exact absurd memory real
    · exact reports_of_prefix opened (fun _ => behind) succeeds real
  · exact ⟨reports_0E files sServerDir uri, reports_0NE files sServerDir uri⟩

/-- A file system with the one file `/a`. -/
def oneFile : FileSystem where
  realpath path :=
    if path = ascii "/" then .resolved ⟨[], by simp⟩ 0
    else if path = ascii "/a" then .resolved ⟨[ascii "a"], by decide⟩ 0
    else .failed Realpath.ENOENT path
  stat path := (true, ⟨decide (path = ascii "/"), decide (path = ascii "/a"), 0⟩)
  readable _ := true
  executable _ := false
  referenceFile path := decide (path = ascii "/a")

/-- The root directory has no second slash behind it. -/
theorem not_contains_slash : ¬Contains fun root full => root.bytes ++ ascii "/" <+: full := by
  intro all
  let server : FileServer := ⟨ascii "/a", fun _ => none, fun _ => none, false, [], ⟨none, [], false, ⟨true, true, true, false, 0⟩, []⟩⟩
  obtain ⟨-, reports, -⟩ := all oneFile (ascii "/") server (ascii "/a") [] false
  obtain ⟨root, errno, answer, behind⟩ := reports (by decide) (by decide)
  have directory : oneFile.realpath (cString (ascii "/")) = .resolved ⟨[], by simp⟩ 0 := by rfl
  rw [directory] at answer
  cases answer
  revert behind
  decide

end Mantids.HTTP
