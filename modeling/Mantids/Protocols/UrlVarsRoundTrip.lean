import Mantids.Protocols.UrlVarsReading

/-! When a stream of URL-formatted variables is read for the variables it is made of. -/

set_option autoImplicit false

namespace Mantids.HTTP

open Memory Library

namespace Encoders.URL

/-- Only the last chunk with bytes in it has bytes to encode. -/
def Unbroken : List Bytes → Prop
  | [] => True
  | chunk :: rest => rest.flatten = [] ∨ ((∀ byte ∈ chunk, shouldEncodeThisByte byte = false) ∧ Unbroken rest)

instance Unbroken.decidable : (chunks : List Bytes) → Decidable (Unbroken chunks)
  | [] => isTrue trivial
  | _ :: rest =>
    have := Unbroken.decidable rest
    inferInstanceAs (Decidable (_ ∨ _))

theorem length_encodeURLStr_eq_iff {url : Bytes} :
    (encodeURLStr url).length = url.length ↔ ∀ byte ∈ url, shouldEncodeThisByte byte = false := by
  induction url with
  | nil => simp [encodeURLStr]
  | cons byte rest ih =>
    have more := length_le_encodeURLStr rest
    have one := length_encodeByte byte
    have split : (encodeURLStr (byte :: rest)).length = (encodeByte byte).length + (encodeURLStr rest).length := by
      rw [encodeURLStr, List.flatMap_cons, List.length_append]
      rfl
    rw [List.forall_mem_cons, ← ih, split, one, List.length_cons]
    cases shouldEncodeThisByte byte with
    | true =>
      simp only [if_true, Bool.true_eq_false, false_and, iff_false]
      omega
    | false =>
      simp only [Bool.false_eq_true, if_false, true_and]
      omega

theorem unbroken_of_empty {chunks : List Bytes} (empty : chunks.flatten = []) : Unbroken chunks := by
  cases chunks with
  | nil => trivial
  | cons chunk rest => exact .inl (List.append_eq_nil_iff.mp empty).2

/-- The copy to the encoder reaches every chunk. -/
theorem streamed_eq_flatten_iff {chunks : List Bytes} : streamed chunks = chunks.flatten ↔ Unbroken chunks := by
  induction chunks with
  | nil => simp [streamed, Unbroken]
  | cons chunk rest ih =>
    rw [streamed, List.flatten_cons, List.append_cancel_left_eq, Unbroken, ← length_encodeURLStr_eq_iff]
    by_cases same : (encodeURLStr chunk).length = chunk.length
    · rw [if_pos same, ih]
      constructor
      · exact fun unbroken => .inr ⟨same, unbroken⟩
      · rintro (beyond | ⟨_, unbroken⟩)
        · exact unbroken_of_empty beyond
        · exact unbroken
    · rw [if_neg same]
      constructor
      · exact fun beyond => .inl beyond.symm
      · rintro (beyond | ⟨same', _⟩)
        · exact beyond.symm
        · exact absurd same' same

end Encoders.URL

namespace UrlVars

open Encoders.URL Vars

/-- What `addVar` keeps of the names: they are not empty, and in upper case. -/
def Stored {V : Type} (vars : Multimap Bytes V) : Prop := ∀ entry ∈ vars.entries, entry.1 ≠ [] ∧ toUpper entry.1 = entry.1

/-- The names fit in a sub parser, and the values are streamed to their end. -/
def Whole (vars : Multimap Bytes (List Bytes)) : Prop :=
  ∀ entry ∈ vars.entries, entry.1.length ≤ maxObjectSize ∧ Unbroken entry.2

instance {V : Type} (vars : Multimap Bytes V) : Decidable (Stored vars) := inferInstanceAs (Decidable (∀ _ ∈ _, _ ∧ _))

instance (vars : Multimap Bytes (List Bytes)) : Decidable (Whole vars) := inferInstanceAs (Decidable (∀ _ ∈ _, _ ∧ _))

theorem toUpper_toUpper (name : Bytes) : toUpper (toUpper name) = toUpper name := by
  have one : ∀ byte : UInt8, toUpper (toUpper [byte]) = toUpper [byte] := by
    apply forall_uint8
    decide +kernel
  induction name with
  | nil => rfl
  | cons byte rest ih =>
    have first := one byte
    simp only [toUpper, List.map_cons, List.map_nil, List.cons.injEq, and_true] at first ih ⊢
    exact ⟨first, ih⟩

theorem stored_addVar {u : UrlVars} (stored : Stored u.vars) (varName data : Bytes) :
    Stored (u.addVar varName data).vars := by
  unfold addVar
  split
  · exact stored
  · rename_i filled
    intro entry member
    rcases Multimap.mem_insert.mp member with rfl | old
    · refine ⟨?_, toUpper_toUpper varName⟩
      intro empty
      exact filled (List.map_eq_nil_iff.mp empty)
    · exact stored entry old

/-! ## The pieces of a stream -/

/-- A name that fits in a sub parser is one chunk. -/
theorem chunksOf_name {varName : Bytes} (filled : varName ≠ []) (short : varName.length ≤ maxObjectSize) :
    BChunks.chunksOf varName = [varName] := by
  have bound : varName.length ≤ 4096 := short
  exact BChunks.chunksOf_eq filled (by omega)

theorem streamed_singleton (chunk : Bytes) : streamed [chunk] = chunk := by
  unfold streamed
  split <;> exact List.append_nil _

theorem plain_streamChunks (chunks : List Bytes) :
    ampersand ∉ streamChunks chunks ∧ equalsSign ∉ streamChunks chunks := by
  constructor
  · intro member
    exact absurd (isCode_streamChunks chunks _ member) (by decide)
  · intro member
    exact absurd (isCode_streamChunks chunks _ member) (by decide)

theorem ampersand_not_mem_streamVar (varName : Bytes) (value : List Bytes) : ampersand ∉ streamVar varName value := by
  have name := (plain_streamChunks (BChunks.chunksOf varName)).1
  have content := (plain_streamChunks value).1
  have other : ampersand ≠ equalsSign := by decide
  unfold streamVar
  split <;> simp [name, content, other]

theorem splitOn_streamVars {entries : List (Bytes × List Bytes)} (some : entries ≠ []) :
    (streamVars entries).splitOn ampersand = entries.map fun entry => streamVar entry.1 entry.2 := by
  induction entries with
  | nil => exact absurd rfl some
  | cons entry rest ih =>
    have plain := ampersand_not_mem_streamVar entry.1 entry.2
    cases rest with
    | nil => exact List.splitOn_eq_singleton plain
    | cons next rest =>
      rw [streamVars, splitOn_piece plain, ih (List.cons_ne_nil _ _)]
      rfl

theorem mem_streamTo {vars : Multimap Bytes (List Bytes)} {byte : UInt8} (member : byte ∈ streamTo vars) :
    isCode byte = true ∨ byte = ampersand ∨ byte = equalsSign := by
  have var : ∀ varName value, byte ∈ streamVar varName value → isCode byte = true ∨ byte = equalsSign := by
    intro varName value inside
    unfold streamVar at inside
    rcases List.mem_append.mp inside with name | content
    · exact .inl (isCode_streamChunks _ _ name)
    · split at content
      · rcases List.mem_cons.mp content with sign | content
        · exact .inr sign
        · exact .inl (isCode_streamChunks _ _ content)
      · cases content
  unfold streamTo at member
  generalize vars.entries = entries at member
  induction entries with
  | nil => cases member
  | cons entry rest ih =>
    cases rest with
    | nil => exact (var _ _ member).imp_right .inr
    | cons next rest =>
      rcases List.mem_append.mp member with here | later
      · exact (var _ _ here).imp_right .inr
      · rcases List.mem_cons.mp later with separator | later
        · exact .inr (.inl separator)
        · exact ih later

/-- A piece means the name and the value that have been streamed. -/
theorem addPiece_streamVar {varName : Bytes} (filled : streamChunks (BChunks.chunksOf varName) ≠ []) (value : List Bytes)
    (vars : Vars) :
    vars.addPiece (streamVar varName value) =
      vars.insert (toUpper (streamed (BChunks.chunksOf varName))) (streamed value) := by
  have whole := (plain_streamChunks (BChunks.chunksOf varName)).2
  unfold streamVar
  by_cases empty : value.flatten = []
  · have nothing : streamed value = [] := by
      rw [streamed_eq_flatten_iff.mpr (unbroken_of_empty empty), empty]
    rw [if_neg (by rw [empty]; decide), List.append_nil, addPiece_name filled whole, decode_streamChunks, nothing]
  · rw [if_pos (by rwa [ne_eq, List.length_eq_zero_iff]), addPiece_assign whole, decode_streamChunks,
      decode_streamChunks]

theorem streamChunks_ne_nil {chunks : List Bytes} (filled : streamed chunks ≠ []) : streamChunks chunks ≠ [] := by
  intro empty
  rw [← decode_streamChunks, empty] at filled
  exact filled rfl

theorem meaning_streamTo {vars : Multimap Bytes (List Bytes)} (stored : Stored vars)
    (short : ∀ entry ∈ vars.entries, entry.1.length ≤ maxObjectSize) :
    Vars.meaning (streamTo vars) = vars.map streamed := by
  rw [← Multimap.foldl_insert_empty (vars.map streamed)]
  unfold Vars.meaning streamTo
  rcases Decidable.em (vars.entries = []) with empty | several
  · simp only [empty, Multimap.map, streamVars, List.splitOn_nil]
    rfl
  · rw [splitOn_streamVars several]
    simp only [Multimap.map, List.foldl_map]
    apply List.foldl_ext
    intro vars' entry member
    obtain ⟨filled, upper⟩ := stored entry member
    have name : streamed (BChunks.chunksOf entry.1) = entry.1 := by
      rw [chunksOf_name filled (short entry member), streamed_singleton]
    rw [addPiece_streamVar (streamChunks_ne_nil (by rwa [name])), name, upper]

/-- No piece of a stream is empty, and none begins with an equals sign. -/
theorem head_streamVar {varName : Bytes} (filled : streamChunks (BChunks.chunksOf varName) ≠ []) (value : List Bytes) :
    streamVar varName value ≠ [] ∧ (streamVar varName value).head? ≠ some equalsSign := by
  have whole := (plain_streamChunks (BChunks.chunksOf varName)).2
  unfold streamVar
  obtain ⟨byte, code, split⟩ := List.exists_cons_of_ne_nil filled
  rw [split] at whole ⊢
  refine ⟨List.cons_ne_nil _ _, ?_⟩
  rintro same
  cases same
  exact whole (.head _)

/-! ## What is read of a stream -/

theorem parsed_streamTo_iff {vars : Multimap Bytes (List Bytes)} (stored : Stored vars) {writes : List Bytes}
    (filled : ∀ buf ∈ writes, buf ≠ []) (stream : writes.flatten = streamTo vars) :
    parsed writes = (.open, vars.map List.flatten) ↔ FitsAll (.waitingName, 0) writes ∧ Whole vars := by
  have exact := parsed_eq_meaning_iff filled
  rw [stream] at exact
  constructor
  · intro same
    have reads := ((parsed_reads filled).2 (by rw [same])).1
    rw [same, stream] at reads
    have short : ∀ entry ∈ vars.entries, entry.1.length ≤ maxObjectSize := by
      intro entry member
      exact reads.name_length_le nofun nofun _ (List.mem_map_of_mem member)
    have meaning := meaning_streamTo stored short
    have read : vars.map List.flatten = Vars.meaning (streamTo vars) := by
      rcases Decidable.em (vars.entries = []) with empty | several
      · rw [meaning]
        apply Multimap.ext
        simp only [Multimap.map, empty, List.map_nil]
      · have pieces : ∀ piece ∈ (streamTo vars).splitOn ampersand, piece ≠ [] ∧ piece.head? ≠ some equalsSign := by
          intro piece member
          rw [streamTo, splitOn_streamVars several] at member
          obtain ⟨entry, inside, rfl⟩ := List.mem_map.mp member
          have filled := (stored entry inside).1
          apply head_streamVar
          apply streamChunks_ne_nil
          rwa [chunksOf_name filled (short entry inside), streamed_singleton]
        apply reads.exact_of_length
        · exact fun piece member => (pieces piece (List.mem_of_mem_drop member)).2
        · exact fun piece member => (pieces piece (List.mem_of_mem_drop member)).1
        · rw [← Vars.meaning_eq, meaning]
          simp only [Multimap.map, List.length_map, Nat.le_refl]
    refine ⟨exact.mp (by rw [same, read]), fun entry member => ⟨short entry member, ?_⟩⟩
    rw [meaning] at read
    have entries := congrArg Multimap.entries read
    simp only [Multimap.map] at entries
    rw [List.map_inj_left] at entries
    have value := entries entry member
    rw [Prod.mk.injEq] at value
    exact streamed_eq_flatten_iff.mp value.2.symm
  · rintro ⟨fits, whole⟩
    rw [exact.mpr fits, meaning_streamTo stored fun entry member => (whole entry member).1]
    congr 1
    apply Multimap.ext
    simp only [Multimap.map]
    apply List.map_congr_left
    intro entry member
    rw [streamed_eq_flatten_iff.mpr (whole entry member).2]

/-- Of every fragmentation of a string the parser stores what the string means exactly where the writes
fit; of a stream of variables it stores these where, in addition, their names fit and their values are
streamed to their end. -/
theorem accepts_iff (writes : List Bytes) (filled : ∀ buf ∈ writes, buf ≠ []) :
    (parsed writes = (.open, Vars.meaning writes.flatten) ↔ FitsAll (.waitingName, 0) writes) ∧
      ∀ vars : Multimap Bytes (List Bytes), Stored vars → writes.flatten = streamTo vars →
        (parsed writes = (.open, vars.map List.flatten) ↔ FitsAll (.waitingName, 0) writes ∧ Whole vars) :=
  ⟨parsed_eq_meaning_iff filled, fun _ stored stream => parsed_streamTo_iff stored filled stream⟩

/-- `a%20=x&b` in two writes, of the variables `A ` and `B`. -/
def twoWrites : List Bytes := [[65, 37, 50], [48, 61, 120, 38, 66]]

def twoVars : Multimap Bytes (List Bytes) := ⟨[([65, 32], [[120]]), ([66], [])], by decide⟩

theorem accepts_iff_two : parsed twoWrites = (.open, Vars.meaning twoWrites.flatten) ∧
    parsed twoWrites = (.open, twoVars.map List.flatten) := by
  obtain ⟨meaning, stream⟩ := accepts_iff twoWrites (by decide)
  have fits : FitsAll (.waitingName, 0) twoWrites := by decide +kernel
  exact ⟨meaning.mpr fits, (stream twoVars (by decide +kernel) (by decide +kernel)).mpr ⟨fits, by decide +kernel⟩⟩

/-- A value whose container has a second chunk behind one with a space in it. -/
def brokenVars : Multimap Bytes (List Bytes) := ⟨[([65], [[32], [98]])], by decide⟩

/-- `a=&b=2` is the variable `A` with the value `b=2`, and the second chunk of a value is not streamed. -/
theorem accepts_fails : parsed [[97, 61, 38, 98, 61, 50]] ≠ (.open, Vars.meaning [97, 61, 38, 98, 61, 50]) ∧
    (parsed [[97, 61, 38, 98, 61, 50]]).2.entries = [([65], [98, 61, 50])] ∧
    Stored brokenVars ∧ parsed [streamTo brokenVars] ≠ (.open, brokenVars.map List.flatten) := by
  decide +kernel

end UrlVars

end Mantids.HTTP
