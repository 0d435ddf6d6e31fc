import Mantids.Memory.DisplaceUntil
import Mantids.Protocols.UrlStreaming

/-! URL coding through streams (`streamencoder_url.cpp`, `streamdecoder_url.cpp`): what the encoder reports is counted
in bytes of the code, and whoever streams to it compares that with bytes of the text. -/

set_option autoImplicit false

namespace Mantids.HTTP

open Memory

namespace Encoders.URL

/-- How many bytes there are before the first that is to be encoded. -/
def getPlainBytesSize (buf : Bytes) : Nat := (buf.takeWhile fun byte => !shouldEncodeThisByte byte).length

/-- The longest buffer that is written. -/
def maxStream : Nat := (2 ^ 64 - 1) / 3 - 3

section
variable {σ : Type}

-- that of the stream behind: what it reports, and what it is then
variable (writeFullStream : σ → Bytes → StreamableObject.Status × σ)

/-- The loop of `write`. Every turn passes a byte, so there are as many turns as bytes. -/
def writeLoop : (turns : Nat) → (buf : Bytes) → (cur : StreamableObject.Status) → σ → StreamableObject.Status × σ
  | turns + 1, byte :: rest, cur, orig =>
    let bytesToTransmitInPlain := getPlainBytesSize (byte :: rest)
    let (piece, passed) :=
      if 0 < bytesToTransmitInPlain then ((byte :: rest).take bytesToTransmitInPlain, bytesToTransmitInPlain)
      else ([37, hexDigit (byte / 16), hexDigit (byte % 16)], 1)
    let (written, orig) := writeFullStream orig piece
    let cur := cur.add written
    if cur.succeed then writeLoop turns ((byte :: rest).drop passed) cur orig else (cur, orig)
  | _, _, cur, orig => (cur, orig)

def write (orig : σ) (buf : Bytes) : StreamableObject.Status × σ :=
  if maxStream < buf.length then (⟨0, false, false⟩, orig) else writeLoop writeFullStream buf.length buf .new orig

end

/-- Letters and digits only. -/
def Plain (text : Bytes) : Prop := ∀ byte ∈ text, shouldEncodeThisByte byte = false

instance plainDecidable (text : Bytes) : Decidable (Plain text) :=
  inferInstanceAs (Decidable (∀ byte ∈ text, shouldEncodeThisByte byte = false))

/-- No piece is too long, and nothing is behind the first that has a byte to encode. -/
def Undivided : List Bytes → Prop
  | [] => True
  | piece :: rest => piece.length ≤ maxStream ∧ (Plain piece ∨ rest.flatten = []) ∧ Undivided rest

instance undividedDecidable : (pieces : List Bytes) → Decidable (Undivided pieces)
  | [] => isTrue trivial
  | _ :: rest =>
    have := undividedDecidable rest
    inferInstanceAs (Decidable (_ ∧ _ ∧ _))

/-! ## The code -/

theorem encodeURLStr_append (first second : Bytes) :
    encodeURLStr (first ++ second) = encodeURLStr first ++ encodeURLStr second := List.flatMap_append

theorem encodeURLStr_plain {text : Bytes} (plain : Plain text) : encodeURLStr text = text := by
  induction text with
  | nil => rfl
  | cons byte rest ih =>
    obtain ⟨first, later⟩ := List.forall_mem_cons.mp plain
    rw [encodeURLStr, List.flatMap_cons, encodeByte_plain first]
    exact congrArg (List.cons byte) (ih later)

/-- Two bytes more for each that is encoded. -/
theorem length_encodeURLStr (text : Bytes) :
    (encodeURLStr text).length = text.length + 2 * text.countP shouldEncodeThisByte := by
  induction text with
  | nil => rfl
  | cons byte rest ih =>
    have one := length_encodeByte byte
    have split : encodeURLStr (byte :: rest) = encodeByte byte ++ encodeURLStr rest := List.flatMap_cons
    rw [split, List.length_append, one, ih, List.length_cons, List.countP_cons]
    split <;> omega

theorem plain_iff_countP {text : Bytes} : Plain text ↔ text.countP shouldEncodeThisByte = 0 := by
  rw [List.countP_eq_zero, Plain]
  simp only [Bool.not_eq_true]

theorem plain_iff_length {text : Bytes} : Plain text ↔ (encodeURLStr text).length = text.length := by
  rw [plain_iff_countP, length_encodeURLStr]
  omega

theorem encodeURLStr_inj {first second : Bytes} (same : encodeURLStr first = encodeURLStr second) : first = second := by
  rw [← decode_encode first, same, decode_encode]

theorem encodeURLStr_eq_nil {text : Bytes} : encodeURLStr text = [] ↔ text = [] := by
  constructor
  · intro none
    exact encodeURLStr_inj none
  · intro none
    rw [none]
    rfl

theorem take_plainBytes (buf : Bytes) : Plain (buf.take (getPlainBytesSize buf)) := by
  rw [getPlainBytesSize, ← List.prefix_iff_eq_take.mp (List.takeWhile_prefix _)]
  intro byte member
  simpa using List.mem_takeWhile_imp member

theorem getPlainBytesSize_le (buf : Bytes) : getPlainBytesSize buf ≤ buf.length := (List.takeWhile_sublist _).length_le

theorem getPlainBytesSize_plain {buf : Bytes} (plain : Plain buf) : getPlainBytesSize buf = buf.length := by
  rw [getPlainBytesSize, List.takeWhile_eq_self_iff.mpr]
  intro byte member
  rw [plain byte member]
  rfl

theorem special_first {byte : UInt8} {rest : Bytes} (none : ¬0 < getPlainBytesSize (byte :: rest)) :
    shouldEncodeThisByte byte = true := by
  by_contra plain
  rw [Bool.not_eq_true] at plain
  apply none
  rw [getPlainBytesSize, List.takeWhile_cons, plain]
  exact Nat.zero_lt_succ _

/-- What a turn hands over is the code of the bytes that it passes. -/
theorem turn_encoded (byte : UInt8) (rest : Bytes) :
    let bytesToTransmitInPlain := getPlainBytesSize (byte :: rest)
    let turn : Bytes × Nat :=
      if 0 < bytesToTransmitInPlain then ((byte :: rest).take bytesToTransmitInPlain, bytesToTransmitInPlain)
      else ([37, hexDigit (byte / 16), hexDigit (byte % 16)], 1)
    turn.1 = encodeURLStr ((byte :: rest).take turn.2) ∧ 0 < turn.2 ∧ turn.2 ≤ (byte :: rest).length := by
  intro bytesToTransmitInPlain turn
  by_cases some : 0 < bytesToTransmitInPlain
  · have taken : turn = ((byte :: rest).take bytesToTransmitInPlain, bytesToTransmitInPlain) := if_pos some
    rw [taken]
    exact ⟨(encodeURLStr_plain (take_plainBytes _)).symm, some, getPlainBytesSize_le _⟩
  · have taken : turn = ([37, hexDigit (byte / 16), hexDigit (byte % 16)], 1) := if_neg some
    have coded : encodeByte byte = [37, hexDigit (byte / 16), hexDigit (byte % 16)] := if_pos (special_first some)
    have single : encodeURLStr ((byte :: rest).take 1) = encodeByte byte := List.append_nil _
    rw [taken]
    exact ⟨by rw [single, coded], Nat.one_pos, Nat.le_add_left 1 _⟩

/-! ## What is handed over -/

section
variable {σ : Type} {writeFullStream : σ → Bytes → StreamableObject.Status × σ}

/-- Whether a stream takes a piece. -/
def accepts (writeFullStream : σ → Bytes → StreamableObject.Status × σ) (orig : σ) (piece : Bytes) : Bool × σ :=
  ((writeFullStream orig piece).1.succeed, (writeFullStream orig piece).2)

/-- A stream that reports all of what it takes. -/
def Honest (writeFullStream : σ → Bytes → StreamableObject.Status × σ) : Prop :=
  ∀ orig piece, (writeFullStream orig piece).1.succeed = true → (writeFullStream orig piece).1 = .all piece.length

variable (honest : Honest writeFullStream)
include honest

theorem writeLoop_delivers {turns : Nat} {buf : Bytes} (enough : buf.length ≤ turns) (count : Nat) {orig : σ}
    (taken : ¬Library.Refuses (accepts writeFullStream) orig (encodeURLStr buf)) :
    ∃ orig', writeLoop writeFullStream turns buf (.all count) orig =
        (.all (count + (encodeURLStr buf).length), orig') ∧
      Library.Delivers (accepts writeFullStream) orig (encodeURLStr buf) orig' := by
  induction turns generalizing buf count orig with
  | zero =>
    obtain rfl := List.length_eq_zero_iff.mp (Nat.le_zero.mp enough)
    exact ⟨orig, rfl, .nothing orig⟩
  | succ turns ih =>
    cases buf with
    | nil => exact ⟨orig, rfl, .nothing orig⟩
    | cons byte rest =>
      rw [writeLoop]
      obtain ⟨coded, positive, within⟩ := turn_encoded byte rest
      dsimp only at coded positive within ⊢
      generalize (if 0 < getPlainBytesSize (byte :: rest) then
        ((byte :: rest).take (getPlainBytesSize (byte :: rest)), getPlainBytesSize (byte :: rest))
        else ([37, hexDigit (byte / 16), hexDigit (byte % 16)], 1)) = turn at coded positive within ⊢
      obtain ⟨piece, passed⟩ := turn
      dsimp only at coded positive within ⊢
      have whole : encodeURLStr (byte :: rest) = piece ++ encodeURLStr ((byte :: rest).drop passed) := by
        rw [coded, ← encodeURLStr_append, List.take_append_drop]
      rw [whole] at taken
      have accepted : (accepts writeFullStream orig piece).1 = true := by
        by_contra refused
        exact taken (.here piece _ (Bool.eq_false_of_not_eq_true refused))
      have status := honest orig piece accepted
      have left : ((byte :: rest).drop passed).length ≤ turns := by
        rw [List.length_drop]
        omega
      have remaining : ¬Library.Refuses (accepts writeFullStream) (writeFullStream orig piece).2
          (encodeURLStr ((byte :: rest).drop passed)) :=
        fun refuses => taken (.later piece accepted refuses)
      obtain ⟨orig', result, delivers⟩ := ih left (count + piece.length) remaining
      refine ⟨orig', ?_, ?_⟩
      · rw [status, StreamableObject.Status.all_add_all,
          if_pos (show (StreamableObject.Status.all _).succeed = true from rfl), result, whole, List.length_append,
          Nat.add_assoc]
      · rw [whole]
        exact .piece piece accepted delivers

theorem write_delivers {buf : Bytes} (fits : buf.length ≤ maxStream) {orig : σ}
    (taken : ¬Library.Refuses (accepts writeFullStream) orig (encodeURLStr buf)) :
    ∃ orig', write writeFullStream orig buf = (.all (encodeURLStr buf).length, orig') ∧
      Library.Delivers (accepts writeFullStream) orig (encodeURLStr buf) orig' := by
  obtain ⟨orig', result, delivers⟩ := writeLoop_delivers honest (Nat.le_refl buf.length) 0 taken
  refine ⟨orig', ?_, delivers⟩
  rw [Nat.zero_add] at result
  rw [write, if_neg (Nat.not_lt.mpr fits)]
  exact result

omit honest in
/-- A plain text is handed over in one piece. -/
theorem write_plain {buf : Bytes} (plain : Plain buf) (filled : buf ≠ []) (fits : buf.length ≤ maxStream) {orig : σ}
    (status : (writeFullStream orig buf).1 = .all buf.length) :
    write writeFullStream orig buf = (.all buf.length, (writeFullStream orig buf).2) := by
  obtain ⟨byte, rest, rfl⟩ := List.exists_cons_of_ne_nil filled
  rw [write, if_neg (Nat.not_lt.mpr fits), List.length_cons, writeLoop, getPlainBytesSize_plain plain,
    if_pos (List.length_pos_of_ne_nil filled)]
  simp only [List.take_length, List.drop_length, status, StreamableObject.Status.new_add_all]
  rw [if_pos (show (StreamableObject.Status.all _).succeed = true from rfl)]
  cases rest <;> rfl

end

/-! ## A stream that accepts everything -/

/-- What comes through of pieces that are streamed one after the other. -/
def reached : List Bytes → Bytes
  | [] => []
  | piece :: rest =>
    if maxStream < piece.length then [] else encodeURLStr piece ++ if Plain piece then reached rest else []

/-- An empty piece makes no difference. -/
theorem reached_nil (rest : List Bytes) : reached ([] :: rest) = reached rest := by
  have short : ¬maxStream < ([] : Bytes).length := Nat.not_lt_zero _
  have plain : Plain [] := List.forall_mem_nil _
  rw [reached, if_neg short, if_pos plain]
  rfl

theorem reached_empty {pieces : List Bytes} (empty : ∀ piece ∈ pieces, piece = []) : reached pieces = [] := by
  induction pieces with
  | nil => rfl
  | cons piece rest ih =>
    obtain ⟨first, more⟩ := List.forall_mem_cons.mp empty
    rw [first, reached_nil, ih more]

theorem reached_eq_iff (pieces : List Bytes) :
    reached pieces = encodeURLStr pieces.flatten ↔ Undivided pieces := by
  induction pieces with
  | nil => exact iff_of_true rfl trivial
  | cons piece rest ih =>
    rw [reached, Undivided, List.flatten_cons, encodeURLStr_append]
    split
    case isTrue long =>
      have some : piece ≠ [] := by
        intro none
        rw [none] at long
        exact absurd long (Nat.not_lt_zero _)
      apply iff_of_false
      · intro none
        exact some (encodeURLStr_eq_nil.mp (List.append_eq_nil_iff.mp none.symm).1)
      · intro undivided
        exact absurd undivided.1 (Nat.not_le.mpr long)
    case isFalse fits =>
      rw [List.append_cancel_left_eq]
      by_cases plain : Plain piece
      · rw [if_pos plain, ih]
        simp only [Nat.not_lt.mp fits, plain, true_or, true_and]
      · rw [if_neg plain]
        simp only [Nat.not_lt.mp fits, plain, false_or, true_and]
        constructor
        · intro none
          have behind := encodeURLStr_eq_nil.mp none.symm
          refine ⟨behind, ?_⟩
          rw [← ih, behind, reached_empty (List.flatten_eq_nil_iff.mp behind)]
          rfl
        · intro behind
          rw [behind.1]
          rfl

section
variable {σ : Type} {writeFullStream : σ → Bytes → StreamableObject.Status × σ} {accepted : σ → Bytes}
  (accepting : StreamableObject.Accepting writeFullStream accepted)
include accepting

theorem accepting_honest : Honest writeFullStream := fun orig piece _ => (accepting orig piece).1

theorem delivers_accepting {orig orig' : σ} {text : Bytes}
    (delivers : Library.Delivers (accepts writeFullStream) orig text orig') :
    accepted orig' = accepted orig ++ text := by
  induction delivers with
  | nothing orig => exact (List.append_nil _).symm
  | @piece orig _ first rest _ _ ih =>
    rw [ih, ← List.append_assoc, ← (accepting orig first).2]
    rfl

theorem write_accepting {buf : Bytes} (fits : buf.length ≤ maxStream) (orig : σ) :
    ∃ orig', write writeFullStream orig buf = (.all (encodeURLStr buf).length, orig') ∧
      accepted orig' = accepted orig ++ encodeURLStr buf := by
  have taken : ¬Library.Refuses (accepts writeFullStream) orig (encodeURLStr buf) := by
    apply Library.not_refuses
    intro orig piece
    exact congrArg StreamableObject.Status.succeed (accepting orig piece).1
  obtain ⟨orig', result, delivers⟩ := write_delivers (accepting_honest accepting) fits taken
  exact ⟨orig', result, delivers_accepting accepting delivers⟩

/-- Streaming ends behind the first piece whose code is longer than the piece. -/
theorem copy_reached (pieces : List Bytes) (count : Nat) (orig : σ) :
    ∃ written orig', StreamableObject.copyToSOUsingCleanVector (write writeFullStream) pieces (.all count) orig =
        some (written, orig') ∧ accepted orig' = accepted orig ++ reached pieces := by
  induction pieces generalizing count orig with
  | nil => exact ⟨count, orig, rfl, (List.append_nil _).symm⟩
  | cons piece rest ih =>
    rw [StreamableObject.copyToSOUsingCleanVector, reached]
    by_cases none : piece = []
    · subst none
      obtain ⟨written, orig', result, stored⟩ := ih count orig
      refine ⟨written, orig', ?_, ?_⟩
      · rw [StreamableObject.writeFullStream_nil]
        exact result
      · rw [stored]
        exact congrArg (List.append (accepted orig)) (reached_nil rest).symm
    by_cases long : maxStream < piece.length
    · have failed : write writeFullStream orig piece = (⟨0, false, false⟩, orig) := if_pos long
      rw [StreamableObject.writeFullStream_failed none (by rw [failed]), failed, if_pos long]
      exact ⟨_, orig, rfl, (List.append_nil _).symm⟩
    · obtain ⟨between, result, stored⟩ := write_accepting accepting (Nat.not_lt.mp long) orig
      rw [StreamableObject.writeFullStream_once none (length_le_encodeURLStr piece) (by rw [result]), result, if_neg long]
      dsimp only
      by_cases plain : Plain piece
      · have same := plain_iff_length.mp plain
        obtain ⟨written, orig', later, more⟩ := ih (count + (encodeURLStr piece).length) between
        refine ⟨written, orig', ?_, ?_⟩
        · rw [if_neg (by simp [StreamableObject.Status.all, same])]
          exact later
        · rw [more, stored, if_pos plain, List.append_assoc]
      · have longer := mt plain_iff_length.mpr plain
        refine ⟨_, between, if_pos (by simp [StreamableObject.Status.all, longer]), ?_⟩
        rw [stored, if_neg plain, List.append_nil]

end

end Encoders.URL

/-! ## Containers that take the code -/

end Mantids.HTTP

namespace Mantids.Memory.BChunks

/-- That of a container: a second write there never is. -/
def writeFullStream (c : BChunks) (buf : Bytes) : StreamableObject.Status × BChunks :=
  if buf = [] then (.new, c) else (StreamableObject.Status.new.add (c.write buf).1, (c.write buf).2)

/-- `B_Base::streamTo`, and what the sink does at the end. -/
def streamTo {σ : Type} (write : σ → Bytes → StreamableObject.Status × σ) (writeEOF : σ → σ) (c : BChunks) (out : σ) :
    Option (Bool × σ) :=
  (c.appendTo write out wholeContainer 0).map fun (bytesAppended, out) => (bytesAppended.1, writeEOF out)

/-- There is room for so many chunks, of so many bytes altogether. -/
structure Room (c : BChunks) (chunks bytes : Nat) : Prop where
  coherent : Coherent c
  limits : c.limits = .default
  chunks : c.chunksVector.length + chunks ≤ 256 * 1024
  bytes : c.size + bytes < 2 ^ 64

theorem Room.less {c : BChunks} {chunks bytes fewer less : Nat} (room : Room c chunks bytes) (chunksLe : fewer ≤ chunks)
    (bytesLe : less ≤ bytes) : Room c fewer less := by
  have chunks := room.chunks
  have bytes := room.bytes
  exact ⟨room.coherent, room.limits, by omega, by omega⟩

theorem room_empty {chunks bytes : Nat} (chunksLe : chunks ≤ 256 * 1024) (bytesLt : bytes < 2 ^ 64) :
    Room (empty .default) chunks bytes :=
  ⟨coherent_of_empty rfl rfl, rfl, (Nat.zero_add chunks).symm ▸ chunksLe, (Nat.zero_add bytes).symm ▸ bytesLt⟩

theorem write_taken {c : BChunks} {buf : Bytes} (filled : buf ≠ []) (taken : (c.write buf).1.succeed = true) :
    (c.write buf).1 = .all buf.length := by
  unfold write at taken ⊢
  dsimp only at taken ⊢
  by_cases done : (c.append buf).1.1 = true
  · have fits := fits_of_taken filled done
    have enough : c.limits.chunkCount buf.length ≤ c.limits.maxChunks - c.chunksVector.length := by
      have room := fits.room
      omega
    have answer : (c.append buf).1 = (true, buf.length) := by
      rw [append, insert_of_accepts false fits.accepts, insertLoop_taken fits.positive false 0 enough, Nat.zero_add]
    rw [answer, if_pos rfl]
  · rw [if_neg done] at taken
    cases taken

/-- It is the loop over `write`. -/
theorem writeFullStream_eq (c : BChunks) (buf : Bytes) :
    StreamableObject.writeFullStream write buf c = some (c.writeFullStream buf) := by
  unfold writeFullStream
  by_cases none : buf = []
  · rw [if_pos none, none, StreamableObject.writeFullStream_nil]
  · rw [if_neg none]
    cases taken : (c.write buf).1.succeed with
    | true =>
      have status := write_taken none taken
      rw [StreamableObject.writeFullStream_taken none status, status, StreamableObject.Status.new_add_all]
    | false => rw [StreamableObject.writeFullStream_failed none taken]

theorem honest_writeFullStream : HTTP.Encoders.URL.Honest writeFullStream := by
  intro c buf taken
  unfold writeFullStream at taken ⊢
  by_cases none : buf = []
  · rw [if_pos none, none]
    rfl
  · rw [if_neg none] at taken ⊢
    have succeeds : (c.write buf).1.succeed = true := by
      simpa [StreamableObject.Status.add, StreamableObject.Status.new] using taken
    rw [write_taken none succeeds, StreamableObject.Status.new_add_all]

/-- Bytes that there is room for are stored. -/
theorem Room.stores {c : BChunks} {chunks bytes : Nat} {buf : Bytes} (filled : buf ≠ [])
    (room : Room c (Limits.default.chunkCount buf.length + chunks) (buf.length + bytes)) :
    ∃ c', c.writeFullStream buf = (.all buf.length, c') ∧ content c'.chunksVector = content c.chunksVector ++ buf ∧
      Room c' chunks bytes := by
  obtain ⟨coherent, limits, fewer, less⟩ := room
  have fits : c.containerBytes + buf.length ≤ c.limits.maxSize := by
    rw [limits]
    show c.size + buf.length ≤ 2 ^ 64 - 1
    omega
  have enough : c.chunksVector.length + c.limits.chunkCount buf.length ≤ c.limits.maxChunks := by
    rw [limits]
    show c.chunksVector.length + _ ≤ 256 * 1024
    omega
  have positive : c.limits.maxChunkSize ≠ 0 := by
    rw [limits]
    decide
  obtain ⟨c', result, after⟩ := append_appended coherent.isCounted positive filled fits enough
  have coherent' : Coherent c' := by
    have all := (append_coherent_iff coherent buf).mpr fun _ _ => positive
    rwa [result] at all
  refine ⟨c', ?_, after.content, coherent', after.limits.trans limits, ?_, ?_⟩
  · rw [writeFullStream, if_neg filled, write, result]
    exact congrArg (·, c') (StreamableObject.Status.new_add_all _)
  · rw [after.chunks, limits]
    omega
  · have size := length_counted after.counted
    rw [after.content, List.length_append, length_counted coherent.isCounted] at size
    omega

theorem chunkCount_default {bytes : Nat} : Limits.default.chunkCount bytes ≤ bytes ∧
    (0 < bytes → bytes ≤ 64 * 1024 → Limits.default.chunkCount bytes = 1) := by
  unfold Limits.chunkCount Limits.default
  dsimp only
  omega

theorem Room.accepts {c : BChunks} {first rest : Bytes} {chunks bytes : Nat}
    (room : Room c ((first ++ rest).length + chunks) ((first ++ rest).length + bytes)) :
    (HTTP.Encoders.URL.accepts writeFullStream c first).1 = true ∧
      content (c.writeFullStream first).2.chunksVector = content c.chunksVector ++ first ∧
      Room (c.writeFullStream first).2 (rest.length + chunks) (rest.length + bytes) := by
  rw [List.length_append, Nat.add_assoc, Nat.add_assoc] at room
  by_cases none : first = []
  · subst none
    rw [List.length_nil, Nat.zero_add, Nat.zero_add] at room
    exact ⟨rfl, (List.append_nil _).symm, room⟩
  · obtain ⟨c', result, stored, left⟩ :=
      Room.stores none (room.less (Nat.add_le_add_right chunkCount_default.1 _) (Nat.le_refl _))
    rw [HTTP.Encoders.URL.accepts, result]
    exact ⟨rfl, stored, left⟩

/-- Where there is room for as many chunks as bytes, no piece of a text is refused. -/
theorem Room.not_refuses {c : BChunks} {text : Bytes} {chunks bytes : Nat}
    (room : Room c (text.length + chunks) (text.length + bytes)) :
    ¬Library.Refuses (HTTP.Encoders.URL.accepts writeFullStream) c text := by
  intro refuses
  induction refuses with
  | here first rest refused =>
    rw [room.accepts.1] at refused
    cases refused
  | later first taken _ ih => exact ih room.accepts.2.2

/-- And what has been handed over is stored. -/
theorem Room.delivered {c c' : BChunks} {text : Bytes} {chunks bytes : Nat}
    (room : Room c (text.length + chunks) (text.length + bytes))
    (delivers : Library.Delivers (HTTP.Encoders.URL.accepts writeFullStream) c text c') :
    content c'.chunksVector = content c.chunksVector ++ text ∧ Room c' chunks bytes := by
  induction delivers with
  | nothing c =>
    rw [List.length_nil, Nat.zero_add, Nat.zero_add] at room
    exact ⟨(List.append_nil _).symm, room⟩
  | piece first taken _ ih =>
    obtain ⟨-, stored, left⟩ := room.accepts
    obtain ⟨more, last⟩ := ih left
    refine ⟨?_, last⟩
    rw [more, ← List.append_assoc, ← stored]
    rfl

/-- Its text. -/
theorem toString_whole {c : BChunks} (coherent : Coherent c) (below : c.size < wholeContainer) :
    c.toString wholeContainer 0 = content c.chunksVector := by
  have size := length_counted coherent.isCounted
  have same : c.toString wholeContainer 0 = c.toString c.size 0 := by
    unfold toString
    rw [bytesToRead_below c.size below]
    rfl
  rw [same, toString_copied coherent below (by decide)]
  by_cases none : c.size = 0
  · rw [none, copyOutBytes_zero (by decide), Option.getD_some]
    rw [none] at size
    exact (List.length_eq_zero_iff.mp size).symm
  · rw [copyOutBytes_eq coherent below none, if_pos (by omega), Option.getD_some, slice, List.drop_zero, ← size,
      List.take_length]

end Mantids.Memory.BChunks
