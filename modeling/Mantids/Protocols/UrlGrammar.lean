import Mantids.Library.Splitting
import Mantids.Protocols.UrlVars

/-! What a string of URL-formatted variables means, and what a parser makes of it that
takes names and values in turns. -/

set_option autoImplicit false

namespace Mantids.HTTP

open Memory Library Decoders.URL

abbrev Vars := Multimap Bytes Bytes

namespace Vars

/-- A piece is a variable: its name up to the first equals sign, its value behind that. -/
def addPiece (vars : Vars) (piece : Bytes) : Vars :=
  if piece = [] then vars
  else
    vars.insert (toUpper (decodeURLStr (piece.takeWhile (· ≠ equalsSign))))
      (decodeURLStr (piece.dropWhile (· ≠ equalsSign)).tail)

/-- The reference meaning of a string of variables. -/
def meaning (query : Bytes) : Vars := (query.splitOn ampersand).foldl addPiece .empty

/-- What is to come of the string: for the value of a variable, or for a name. -/
def following (varName : Option Bytes) (vars : Vars) (query : Bytes) : Vars :=
  match varName with
  | none => (query.splitOn ampersand).foldl addPiece vars
  | some varName =>
    match query.splitOn ampersand with
    | piece :: pieces => pieces.foldl addPiece (vars.insert (toUpper varName) (decodeURLStr piece))
    | [] => vars

theorem meaning_eq (query : Bytes) : meaning query = following none .empty query := rfl

end Vars

/-- How many pieces of the string are not empty. -/
def pieceCount (query : Bytes) : Nat := (query.splitOn ampersand).countP (· ≠ [])

/-- What is so of the pieces of the string that begin with a name. -/
def Each (p : Bytes → Prop) (varName : Option Bytes) (query : Bytes) : Prop :=
  ∀ piece ∈ (query.splitOn ampersand).drop (if varName = none then 0 else 1), p piece

/-- No variable of the string has an empty name. -/
abbrev Named : Option Bytes → Bytes → Prop := Each fun piece => piece.head? ≠ some equalsSign

abbrev Solid : Option Bytes → Bytes → Prop := Each fun piece => piece ≠ []

/-- The readings of a string: a name that ends in an equals sign may have ampersands in it, what is
empty is passed over, and nothing is longer than a sub parser holds. -/
inductive Reads : Option Bytes → Vars → Bytes → Vars → Prop where
  | skip {varName : Option Bytes} {vars final : Vars} {rest : Bytes} (reads : Reads varName vars rest final) :
      Reads varName vars (ampersand :: rest) final
  | skipName {vars final : Vars} {rest : Bytes} (reads : Reads none vars rest final) :
      Reads none vars (equalsSign :: rest) final
  | name {vars final : Vars} {part rest : Bytes} (filled : part ≠ []) (short : part.length ≤ UrlVars.maxObjectSize)
      (plain : ampersand ∉ part) (whole : equalsSign ∉ part)
      (reads : Reads none (vars.insert (toUpper (decodeURLStr part)) []) rest final) :
      Reads none vars (part ++ ampersand :: rest) final
  | assign {vars final : Vars} {part rest : Bytes} (filled : part ≠ []) (short : part.length ≤ UrlVars.maxObjectSize)
      (whole : equalsSign ∉ part) (reads : Reads (some (decodeURLStr part)) vars rest final) :
      Reads none vars (part ++ equalsSign :: rest) final
  | value {varName : Bytes} {vars final : Vars} {part rest : Bytes} (filled : part ≠ [])
      (short : part.length ≤ UrlVars.maxObjectSize) (plain : ampersand ∉ part)
      (reads : Reads none (vars.insert (toUpper varName) (decodeURLStr part)) rest final) :
      Reads (some varName) vars (part ++ ampersand :: rest) final
  | finish {varName : Option Bytes} {vars : Vars} : Reads varName vars [] vars
  | lastName {vars : Vars} {part : Bytes} (filled : part ≠ []) (short : part.length ≤ UrlVars.maxObjectSize)
      (plain : ampersand ∉ part) (whole : equalsSign ∉ part) : Reads none vars part (vars.insert (toUpper (decodeURLStr part)) [])
  | lastValue {varName : Bytes} {vars : Vars} {part : Bytes} (filled : part ≠ [])
      (short : part.length ≤ UrlVars.maxObjectSize) (plain : ampersand ∉ part) :
      Reads (some varName) vars part (vars.insert (toUpper varName) (decodeURLStr part))

/-! ## Pieces -/

section
variable {part rest query : Bytes}

theorem splitOn_piece (plain : ampersand ∉ part) (rest : Bytes) :
    (part ++ ampersand :: rest).splitOn ampersand = part :: rest.splitOn ampersand := by
  rw [List.splitOn_append_cons_self, List.splitOn_eq_singleton plain]
  rfl

theorem splitOn_ampersand (rest : Bytes) : (ampersand :: rest).splitOn ampersand = [] :: rest.splitOn ampersand := by
  have plain : ampersand ∉ ([] : Bytes) := List.not_mem_nil
  exact splitOn_piece plain rest

/-- Bytes before the first ampersand belong to the first piece. -/
theorem splitOn_plain (plain : ampersand ∉ part) (rest : Bytes) :
    ∃ piece pieces, rest.splitOn ampersand = piece :: pieces ∧
      (part ++ rest).splitOn ampersand = (part ++ piece) :: pieces := by
  induction part with
  | nil =>
    obtain ⟨piece, pieces, split⟩ := List.exists_cons_of_ne_nil (List.splitOn_ne_nil ampersand rest)
    exact ⟨piece, pieces, split, split⟩
  | cons byte part ih =>
    rw [List.mem_cons, not_or] at plain
    obtain ⟨piece, pieces, split, whole⟩ := ih plain.2
    refine ⟨piece, pieces, split, ?_⟩
    rw [List.cons_append, List.splitOn_cons_eq_if_modifyHead, whole, if_neg]
    · rfl
    · simpa using fun same => plain.1 same.symm

@[simp] theorem pieceCount_ampersand (rest : Bytes) : pieceCount (ampersand :: rest) = pieceCount rest := by
  rw [pieceCount, splitOn_ampersand, List.countP_cons_of_neg (by simp)]
  rfl

theorem pieceCount_piece (filled : part ≠ []) (plain : ampersand ∉ part) (rest : Bytes) :
    pieceCount (part ++ ampersand :: rest) = pieceCount rest + 1 := by
  rw [pieceCount, splitOn_piece plain, List.countP_cons_of_pos (by simpa using filled)]
  rfl

theorem pieceCount_last (filled : part ≠ []) (plain : ampersand ∉ part) : pieceCount part = 1 := by
  rw [pieceCount, List.splitOn_eq_singleton plain]
  simp [filled]

/-- A byte in front makes no piece empty. -/
theorem pieceCount_le_cons (byte : UInt8) (rest : Bytes) : pieceCount rest ≤ pieceCount (byte :: rest) := by
  by_cases separator : byte = ampersand
  · rw [separator, pieceCount_ampersand]
  · have plain : ampersand ∉ [byte] := by simpa using fun same => separator same.symm
    obtain ⟨piece, pieces, split, whole⟩ := splitOn_plain plain rest
    rw [List.singleton_append] at whole
    rw [pieceCount, pieceCount, split, whole, List.countP_cons, List.countP_cons]
    simp
    split <;> omega

theorem pieceCount_le_append (part rest : Bytes) : pieceCount rest ≤ pieceCount (part ++ rest) := by
  induction part with
  | nil => exact Nat.le_refl _
  | cons byte part ih => exact Nat.le_trans ih (pieceCount_le_cons byte (part ++ rest))

end

/-! ## The meaning, piece by piece -/

namespace Vars

/-- The bytes of all names and values. -/
def bytes (vars : Vars) : Nat := vars.weight fun name value => name.length + value.length

@[simp] theorem length_toUpper (name : Bytes) : (toUpper name).length = name.length := List.length_map _

theorem bytes_insert (vars : Vars) (name value : Bytes) :
    Vars.bytes (vars.insert name value) = vars.bytes + (name.length + value.length) :=
  Multimap.weight_insert _ name value vars

theorem addPiece_nil (vars : Vars) : vars.addPiece [] = vars := rfl

theorem addPiece_name {part : Bytes} (filled : part ≠ []) (whole : equalsSign ∉ part) (vars : Vars) :
    vars.addPiece part = vars.insert (toUpper (decodeURLStr part)) [] := by
  have all := all_ne whole
  rw [addPiece, if_neg filled, List.takeWhile_eq_self_iff.mpr all, List.dropWhile_eq_nil_iff.mpr all]
  rfl

theorem addPiece_assign {part : Bytes} (whole : equalsSign ∉ part) (vars : Vars) (value : Bytes) :
    vars.addPiece (part ++ equalsSign :: value) =
      vars.insert (toUpper (decodeURLStr part)) (decodeURLStr value) := by
  rw [addPiece, if_neg (by simp), takeWhile_ne whole, dropWhile_ne whole]
  rfl

theorem length_addPieces (pieces : List Bytes) (vars : Vars) :
    (pieces.foldl addPiece vars).entries.length = vars.entries.length + pieces.countP (· ≠ []) := by
  induction pieces generalizing vars with
  | nil => rfl
  | cons piece pieces ih =>
    rw [List.foldl_cons, ih]
    by_cases empty : piece = []
    · simp [empty, addPiece]
    · rw [List.countP_cons_of_pos (by simpa using empty), addPiece, if_neg empty, Multimap.length_insert]
      omega

/-- What the pieces add does not depend on what is there. -/
theorem bytes_addPieces (pieces : List Bytes) (vars others : Vars) :
    (pieces.foldl addPiece vars).bytes + others.bytes = (pieces.foldl addPiece others).bytes + vars.bytes := by
  induction pieces generalizing vars others with
  | nil => exact Nat.add_comm _ _
  | cons piece pieces ih =>
    by_cases empty : piece = []
    · rw [empty]
      exact ih vars others
    · have same := ih (vars.addPiece piece) (others.addPiece piece)
      rw [List.foldl_cons, List.foldl_cons]
      simp only [addPiece, empty, if_false] at same ⊢
      rw [bytes_insert, bytes_insert] at same
      omega

section
variable {part rest : Bytes} (vars : Vars)

theorem following_some {query piece : Bytes} {pieces : List Bytes}
    (split : query.splitOn ampersand = piece :: pieces) (varName : Bytes) :
    following (some varName) vars query =
      pieces.foldl addPiece (vars.insert (toUpper varName) (decodeURLStr piece)) := by
  simp only [following, split]

theorem following_ampersand (rest : Bytes) : following none vars (ampersand :: rest) = following none vars rest := by
  rw [following, splitOn_ampersand]
  rfl

theorem following_name (filled : part ≠ []) (plain : ampersand ∉ part) (whole : equalsSign ∉ part) (rest : Bytes) :
    following none vars (part ++ ampersand :: rest) =
      following none (vars.insert (toUpper (decodeURLStr part)) []) rest := by
  rw [following, splitOn_piece plain, List.foldl_cons, addPiece_name filled whole]
  rfl

theorem following_assign (plain : ampersand ∉ part) (whole : equalsSign ∉ part) (rest : Bytes) :
    following none vars (part ++ equalsSign :: rest) = following (some (decodeURLStr part)) vars rest := by
  have plain' : ampersand ∉ part ++ [equalsSign] := by
    rw [List.mem_append, not_or]
    exact ⟨plain, by decide⟩
  obtain ⟨piece, pieces, split, both⟩ := splitOn_plain plain' rest
  rw [List.append_assoc, List.singleton_append] at both
  have name := addPiece_assign whole vars piece
  rw [following, both, following_some vars split]
  simp only [List.foldl_cons, List.append_assoc, List.singleton_append, name]

theorem following_value (plain : ampersand ∉ part) (varName rest : Bytes) :
    following (some varName) vars (part ++ ampersand :: rest) =
      following none (vars.insert (toUpper varName) (decodeURLStr part)) rest :=
  following_some vars (splitOn_piece plain rest) varName

theorem following_lastName (filled : part ≠ []) (plain : ampersand ∉ part) (whole : equalsSign ∉ part) :
    following none vars part = vars.insert (toUpper (decodeURLStr part)) [] := by
  rw [following, List.splitOn_eq_singleton plain]
  exact addPiece_name filled whole vars

theorem following_lastValue (plain : ampersand ∉ part) (varName : Bytes) :
    following (some varName) vars part = vars.insert (toUpper varName) (decodeURLStr part) :=
  following_some vars (List.splitOn_eq_singleton plain) varName

theorem length_following_none (query : Bytes) :
    (following none vars query).entries.length = vars.entries.length + pieceCount query :=
  length_addPieces _ vars

/-- The value counts, empty or not. -/
theorem length_lt_following_some (varName query : Bytes) :
    vars.entries.length + pieceCount query ≤ (following (some varName) vars query).entries.length ∧
      (query.head? = none ∨ query.head? = some ampersand →
        vars.entries.length + pieceCount query < (following (some varName) vars query).entries.length) := by
  obtain ⟨piece, pieces, split⟩ := List.exists_cons_of_ne_nil (List.splitOn_ne_nil ampersand query)
  have length : (following (some varName) vars query).entries.length =
      vars.entries.length + 1 + pieces.countP (· ≠ []) := by
    rw [following_some vars split, length_addPieces, Multimap.length_insert]
  rw [length, pieceCount, split, List.countP_cons]
  constructor
  · split <;> omega
  · intro first
    have empty : piece = [] := by
      rcases query with _ | ⟨byte, rest⟩
      · rw [List.splitOn_nil] at split
        cases split
        rfl
      · have same : byte = ampersand := by simpa using first
        rw [same, splitOn_ampersand] at split
        cases split
        rfl
    rw [empty]
    simp

end

end Vars

/-! ## What a reading can come to -/

open Vars

section
variable {varName : Option Bytes} {vars final : Vars} {query : Bytes}

/-- A reading finds no more variables than the string has pieces. -/
theorem Reads.length_le (reads : Reads varName vars query final) :
    final.entries.length ≤ vars.entries.length + pieceCount query := by
  induction reads with
  | skip _ ih => rwa [pieceCount_ampersand]
  | @skipName _ _ rest _ ih => exact Nat.le_trans ih (Nat.add_le_add_left (pieceCount_le_cons equalsSign rest) _)
  | name filled _ plain _ _ ih =>
    rw [pieceCount_piece filled plain]
    rw [Multimap.length_insert] at ih
    omega
  | @assign _ _ part rest _ _ _ _ ih =>
    have rest := Nat.le_trans (pieceCount_le_cons equalsSign rest) (pieceCount_le_append part _)
    omega
  | value filled _ plain _ ih =>
    rw [pieceCount_piece filled plain]
    rw [Multimap.length_insert] at ih
    omega
  | finish => exact Nat.le_add_right _ _
  | lastName filled _ plain _ => rw [pieceCount_last filled plain, Multimap.length_insert]
  | lastValue filled _ plain => rw [pieceCount_last filled plain, Multimap.length_insert]

/-- No variable has an empty name. -/
def AllNamed (vars : Vars) : Prop := ∀ entry ∈ vars.entries, entry.1 ≠ []

theorem allNamed_insert (named : AllNamed vars) {name : Bytes} (filled : name ≠ []) (value : Bytes) :
    AllNamed (vars.insert (toUpper name) value) := by
  intro entry member
  rcases Multimap.mem_insert.mp member with rfl | old
  · intro empty
    apply filled
    rw [← List.length_eq_zero_iff, ← length_toUpper, List.length_eq_zero_iff]
    exact empty
  · exact named entry old

theorem Reads.allNamed (reads : Reads varName vars query final) (named : AllNamed vars)
    (current : ∀ name, varName = some name → name ≠ []) : AllNamed final := by
  induction reads with
  | skip _ ih => exact ih named current
  | skipName _ ih => exact ih named current
  | name filled _ _ _ _ ih => exact ih (allNamed_insert named (decodeURLStr_ne_nil filled) []) nofun
  | assign filled _ _ _ ih =>
    apply ih named
    intro name same
    cases same
    exact decodeURLStr_ne_nil filled
  | value _ _ _ _ ih => exact ih (allNamed_insert named (current _ rfl) _) nofun
  | finish => exact named
  | lastName filled _ _ _ => exact allNamed_insert named (decodeURLStr_ne_nil filled) []
  | lastValue _ _ _ => exact allNamed_insert named (current _ rfl) _

/-- A piece with an empty name means a variable without one. -/
theorem not_allNamed_addPieces {pieces : List Bytes} {piece : Bytes} (member : piece ∈ pieces)
    (nameless : piece.head? = some equalsSign) (vars : Vars) : ¬AllNamed (pieces.foldl addPiece vars) := by
  have kept : ∀ (pieces : List Bytes) (vars : Vars), ¬AllNamed vars → ¬AllNamed (pieces.foldl addPiece vars) := by
    intro pieces
    induction pieces with
    | nil => exact fun _ nameless => nameless
    | cons piece pieces ih =>
      intro vars nameless
      apply ih
      intro named
      apply nameless
      intro entry old
      unfold addPiece at named
      split at named
      · exact named entry old
      · exact named entry (Multimap.mem_insert.mpr (.inr old))
  induction pieces generalizing vars with
  | nil => cases member
  | cons first pieces ih =>
    rcases List.mem_cons.mp member with rfl | later
    · rw [List.foldl_cons]
      apply kept pieces
      intro named
      rcases piece with _ | ⟨byte, rest⟩
      · cases nameless
      · cases nameless
        have entry : vars.addPiece (equalsSign :: rest) = vars.insert (toUpper []) (decodeURLStr rest) :=
          addPiece_assign List.not_mem_nil vars rest
        rw [entry] at named
        exact named ([], decodeURLStr rest) (Multimap.mem_insert.mpr (.inl rfl)) rfl
    · exact ih later _

theorem named_of_allNamed (named : AllNamed (following varName vars query)) : Named varName query := by
  intro piece member nameless
  cases varName with
  | none => exact not_allNamed_addPieces member nameless vars named
  | some name =>
    obtain ⟨first, pieces, split⟩ := List.exists_cons_of_ne_nil (List.splitOn_ne_nil ampersand query)
    rw [following_some vars split] at named
    rw [split] at member
    exact not_allNamed_addPieces member nameless _ named

theorem not_named_equalsSign (rest : Bytes) : ¬Named none (equalsSign :: rest) := by
  intro named
  have plain : ampersand ∉ [equalsSign] := by decide
  obtain ⟨piece, pieces, _, whole⟩ := splitOn_plain plain rest
  apply named ([equalsSign] ++ piece)
  · change _ ∈ ([equalsSign] ++ rest).splitOn ampersand
    rw [whole]
    exact .head _
  · rfl

/-- How a reading that is not exact misses: there are too few variables, or, in a string that is not
solid, too many bytes in them. -/
def Missed (final intended : Vars) (solid : Prop) : Prop :=
  final.entries.length < intended.entries.length ∨
    (¬solid ∧ final.entries.length = intended.entries.length ∧ intended.bytes < final.bytes)

theorem ne_of_fewer {intended : Vars} (fewer : final.entries.length < intended.entries.length) : final ≠ intended := by
  rintro rfl
  exact Nat.lt_irrefl _ fewer

theorem Missed.ne {intended : Vars} {solid : Prop} (missed : Missed final intended solid) : final ≠ intended := by
  rcases missed with fewer | ⟨_, _, heavy⟩
  · exact ne_of_fewer fewer
  · rintro rfl
    exact Nat.lt_irrefl _ heavy

theorem Missed.mono {intended : Vars} {solid solid' : Prop} (missed : Missed final intended solid)
    (implies : solid' → solid) : Missed final intended solid' :=
  missed.imp_right fun ⟨hollow, heavy⟩ => ⟨fun solid => hollow (implies solid), heavy⟩

/-- A name with an ampersand in it is read where there are other pieces, or with bytes too many. -/
theorem missed_merge {part rest : Bytes} (whole : equalsSign ∉ part) (merged : ampersand ∈ part)
    (reads : Reads (some (decodeURLStr part)) vars rest final)
    (later : final = following (some (decodeURLStr part)) vars rest ∨
      Missed final (following (some (decodeURLStr part)) vars rest) (Solid (some (decodeURLStr part)) rest)) :
    Missed final (following none vars (part ++ equalsSign :: rest)) (Solid none (part ++ equalsSign :: rest)) := by
  have lead : ∀ byte ∈ part.takeWhile (· = ampersand), byte = ampersand := by
    intro byte member
    simpa using List.mem_takeWhile_imp member
  have parts : part = part.takeWhile (· = ampersand) ++ part.dropWhile (· = ampersand) :=
    List.takeWhile_append_dropWhile.symm
  have first : (part.dropWhile (· = ampersand)).head? ≠ some ampersand := by
    intro same
    have other := List.head?_dropWhile_not (· = ampersand) part
    rw [same] at other
    simp at other
  generalize part.takeWhile (· = ampersand) = front at lead parts
  generalize part.dropWhile (· = ampersand) = back at first parts
  subst parts
  have stream : front ++ back ++ equalsSign :: rest = front ++ (back ++ equalsSign :: rest) := List.append_assoc _ _ _
  rw [stream]
  by_cases inside : ampersand ∈ back
  · -- the pieces that the name takes up count for themselves
    obtain ⟨piece, left, rfl, plain⟩ := List.eq_append_cons_of_mem inside
    have filled : piece ≠ [] := by
      rintro rfl
      exact first rfl
    have bound := reads.length_le
    have more := pieceCount_le_append front (piece ++ ampersand :: (left ++ equalsSign :: rest))
    have left := Nat.le_trans (pieceCount_le_cons equalsSign rest) (pieceCount_le_append left _)
    rw [pieceCount_piece filled plain] at more
    refine .inl ?_
    rw [length_following_none, List.append_assoc, List.cons_append]
    omega
  · have skipped : following none vars (front ++ (back ++ equalsSign :: rest)) =
        following none vars (back ++ equalsSign :: rest) := by
      clear merged reads later stream whole
      induction front with
      | nil => rfl
      | cons byte front ih =>
        rw [List.forall_mem_cons] at lead
        rw [lead.1, List.cons_append, following_ampersand, ih lead.2]
    have decoded : decodeURLStr (front ++ back) = front ++ decodeURLStr back := by
      clear merged reads later stream whole skipped
      induction front with
      | nil => rfl
      | cons byte front ih =>
        rw [List.forall_mem_cons] at lead
        rw [List.cons_append, decodeURLStr_cons (by rw [lead.1]; decide) (by rw [lead.1]; decide), ih lead.2]
        rfl
    have some : 0 < front.length := by
      rcases List.mem_append.mp merged with member | member
      · exact List.length_pos_of_mem member
      · exact absurd member inside
    have wholeBack : equalsSign ∉ back := fun member => whole (List.mem_append_right front member)
    have hollow : ¬Solid none (front ++ (back ++ equalsSign :: rest)) := by
      obtain ⟨byte, front, rfl⟩ := List.exists_cons_of_length_pos some
      rw [lead byte (.head _), List.cons_append]
      intro solid
      apply solid [] _ rfl
      rw [splitOn_ampersand]
      exact .head _
    rw [skipped, following_assign vars inside wholeBack]
    obtain ⟨piece, pieces, split⟩ := List.exists_cons_of_ne_nil (List.splitOn_ne_nil ampersand rest)
    rw [following_some vars split, decoded] at later
    rw [following_some vars split]
    have bytes := bytes_addPieces pieces (vars.insert (toUpper (front ++ decodeURLStr back)) (decodeURLStr piece))
      (vars.insert (toUpper (decodeURLStr back)) (decodeURLStr piece))
    simp only [bytes_insert, length_toUpper, List.length_append] at bytes
    have lengths : ∀ name, (pieces.foldl addPiece (vars.insert name (decodeURLStr piece))).entries.length =
        vars.entries.length + 1 + pieces.countP (· ≠ []) := by
      intro name
      rw [length_addPieces, Multimap.length_insert]
    unfold Missed at later ⊢
    rw [lengths] at later ⊢
    rcases later with rfl | short | ⟨_, same, heavy⟩
    · refine .inr ⟨hollow, lengths _, ?_⟩
      omega
    · exact .inl short
    · refine .inr ⟨hollow, same, ?_⟩
      omega

theorem each_piece {p : Bytes → Prop} {part rest : Bytes} (plain : ampersand ∉ part)
    (each : Each p varName (part ++ ampersand :: rest)) : Each p none rest := by
  intro piece member
  apply each
  rw [splitOn_piece plain]
  cases varName with
  | none => exact .tail _ member
  | some _ => exact member

/-- The pieces behind the first are those of the rest. -/
theorem each_append {p : Bytes → Prop} {part rest : Bytes} (each : Each p varName (part ++ rest)) (name : Bytes) :
    Each p (some name) rest := by
  have behind : ∀ part : Bytes, ∀ piece ∈ (rest.splitOn ampersand).drop 1,
      piece ∈ ((part ++ rest).splitOn ampersand).drop 1 := by
    intro part
    induction part with
    | nil => exact fun _ member => member
    | cons byte part ih =>
      intro piece member
      have later := ih piece member
      rw [List.cons_append, List.splitOn_cons_eq_if_modifyHead]
      split
      · exact List.mem_of_mem_drop later
      · rwa [List.drop_one, List.tail_modifyHead, ← List.drop_one]
  intro piece member
  have later := behind part piece member
  apply each
  cases varName with
  | none => exact List.mem_of_mem_drop later
  | some _ => exact later

/-- Where a value is lost there are fewer variables. -/
theorem fewer_of_value (reads : Reads varName vars query final) {name intended : Bytes}
    (short : pieceCount query = pieceCount intended) (first : intended.head? = none ∨ intended.head? = some ampersand) :
    final.entries.length < (following (some name) vars intended).entries.length := by
  have bound := reads.length_le
  have more := (length_lt_following_some vars name intended).2 first
  omega

/-- A reading is exact, or it misses. -/
theorem Reads.exact_or_missed (reads : Reads varName vars query final) (named : Named varName query) :
    final = following varName vars query ∨ Missed final (following varName vars query) (Solid varName query) := by
  induction reads with
  | @skip varName vars final rest reads ih =>
    cases varName with
    | none =>
      have plain : ampersand ∉ ([] : Bytes) := List.not_mem_nil
      rw [following_ampersand]
      exact (ih (each_piece plain named)).imp_right fun missed => missed.mono (each_piece plain)
    | some name => exact .inr (.inl (fewer_of_value reads (pieceCount_ampersand rest).symm (.inr rfl)))
  | @skipName vars final rest reads ih => exact absurd named (not_named_equalsSign rest)
  | @name vars final part rest filled _ plain whole reads ih =>
    rw [following_name vars filled plain whole]
    exact (ih (each_piece plain named)).imp_right fun missed => missed.mono (each_piece plain)
  | @assign vars final part rest filled _ whole reads ih =>
    have split : part ++ equalsSign :: rest = part ++ [equalsSign] ++ rest := by
      rw [List.append_assoc, List.singleton_append]
    have later := ih (each_append (split ▸ named) _)
    by_cases merged : ampersand ∈ part
    · exact .inr (missed_merge whole merged reads later)
    · rw [following_assign vars merged whole]
      exact later.imp_right fun missed => missed.mono fun solid => each_append (split ▸ solid) _
  | @value varName vars final part rest filled _ plain reads ih =>
    rw [following_value vars plain]
    exact (ih (each_piece plain named)).imp_right fun missed => missed.mono (each_piece plain)
  | @finish varName vars =>
    cases varName with
    | none => exact .inl rfl
    | some name => exact .inr (.inl (fewer_of_value (Reads.finish : Reads none vars [] vars) rfl (.inl rfl)))
  | lastName filled _ plain whole => exact .inl (following_lastName _ filled plain whole).symm
  | lastValue filled _ plain => exact .inl (following_lastValue _ plain _).symm

/-- Without empty pieces the number of the variables tells. -/
theorem Reads.exact_of_length (reads : Reads varName vars query final) (named : Named varName query)
    (solid : Solid varName query)
    (length : (following varName vars query).entries.length ≤ final.entries.length) :
    final = following varName vars query := by
  rcases reads.exact_or_missed named with exact | short | ⟨hollow, _⟩
  · exact exact
  · exact absurd length (Nat.not_le.mpr short)
  · exact absurd solid hollow

/-- No name that is read is longer than a sub parser holds. -/
theorem Reads.name_length_le (reads : Reads varName vars query final)
    (short : ∀ entry ∈ vars.entries, entry.1.length ≤ UrlVars.maxObjectSize)
    (current : ∀ name, varName = some name → name.length ≤ UrlVars.maxObjectSize) :
    ∀ entry ∈ final.entries, entry.1.length ≤ UrlVars.maxObjectSize := by
  have insert : ∀ {vars : Vars} {name : Bytes} (value : Bytes),
      (∀ entry ∈ vars.entries, entry.1.length ≤ UrlVars.maxObjectSize) → name.length ≤ UrlVars.maxObjectSize →
      ∀ entry ∈ (vars.insert (toUpper name) value).entries, entry.1.length ≤ UrlVars.maxObjectSize := by
    intro vars name value short bound entry member
    rcases Multimap.mem_insert.mp member with rfl | old
    · rwa [length_toUpper]
    · exact short entry old
  induction reads with
  | skip _ ih => exact ih short current
  | skipName _ ih => exact ih short current
  | name _ bound _ _ _ ih => exact ih (insert [] short (Nat.le_trans (length_decodeURLStr_le _) bound)) nofun
  | assign _ bound _ _ ih =>
    apply ih short
    intro name same
    cases same
    exact Nat.le_trans (length_decodeURLStr_le _) bound
  | value _ _ _ _ ih => exact ih (insert _ short (current _ rfl)) nofun
  | finish => exact short
  | lastName _ bound _ _ => exact insert [] short (Nat.le_trans (length_decodeURLStr_le _) bound)
  | lastValue _ _ _ => exact insert _ short (current _ rfl)

end

end Mantids.HTTP
