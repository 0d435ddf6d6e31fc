import Mantids.Protocols.ChunkedTransfer
import Mantids.Protocols.UrlEncoding

/-! `encodeURLStr` and `decodeURLStr`: from a string by 64 KiB through the stream to a container. -/

set_option autoImplicit false

namespace Mantids.Memory

section
variable {maxChunkSize : Nat} (positive : maxChunkSize ≠ 0)
include positive

theorem pieces_induction {motive : Bytes → Prop} (nil : motive [])
    (cons : ∀ buf, buf ≠ [] → motive (buf.drop maxChunkSize) → motive buf) (buf : Bytes) : motive buf := by
  generalize size : buf.length = count
  induction count using Nat.strong_induction_on generalizing buf with
  | _ count ih =>
    by_cases none : buf = []
    · rw [none]
      exact nil
    · have some := List.length_pos_of_ne_nil none
      exact cons buf none (ih (buf.drop maxChunkSize).length (by rw [List.length_drop]; omega) _ rfl)

theorem pieces_filled {buf : Bytes} (filled : buf ≠ []) :
    pieces maxChunkSize buf = buf.take maxChunkSize :: pieces maxChunkSize (buf.drop maxChunkSize) := by
  obtain ⟨byte, rest, rfl⟩ := List.exists_cons_of_ne_nil filled
  exact pieces_cons positive byte rest

theorem flatten_pieces (buf : Bytes) : (pieces maxChunkSize buf).flatten = buf := by
  apply pieces_induction positive (motive := fun buf => (pieces maxChunkSize buf).flatten = buf) rfl
  intro buf filled ih
  rw [pieces_filled positive filled, List.flatten_cons, ih, List.take_append_drop]

theorem length_pieces (buf : Bytes) : (pieces maxChunkSize buf).length * maxChunkSize < buf.length + maxChunkSize := by
  apply pieces_induction positive
    (motive := fun buf => (pieces maxChunkSize buf).length * maxChunkSize < buf.length + maxChunkSize)
  · rw [List.length_nil, Nat.zero_add]
    exact Nat.lt_of_le_of_lt (Nat.le_of_eq (Nat.zero_mul _)) (Nat.pos_of_ne_zero positive)
  · intro buf filled ih
    have some := List.length_pos_of_ne_nil filled
    rw [pieces_filled positive filled, List.length_cons, Nat.succ_mul]
    rw [List.length_drop] at ih
    rcases Nat.lt_or_ge maxChunkSize buf.length with more | less
    · omega
    · rw [List.drop_eq_nil_of_le less]
      show 0 * maxChunkSize + maxChunkSize < _
      omega

theorem pieces_each (buf : Bytes) : ∀ piece ∈ pieces maxChunkSize buf, piece ≠ [] ∧ piece.length ≤ maxChunkSize := by
  apply pieces_induction positive
    (motive := fun buf => ∀ piece ∈ pieces maxChunkSize buf, piece ≠ [] ∧ piece.length ≤ maxChunkSize)
  · exact List.forall_mem_nil _
  · intro buf filled ih
    rw [pieces_filled positive filled, List.forall_mem_cons]
    refine ⟨⟨?_, ?_⟩, ih⟩
    · intro none
      rcases List.take_eq_nil_iff.mp none with zero | empty
      · exact positive zero
      · exact filled empty
    · rw [List.length_take]
      exact Nat.min_le_left _ _

/-- Whole pieces in front are pieces. -/
theorem pieces_append {whole : List Bytes} (full : ∀ piece ∈ whole, piece.length = maxChunkSize) (rest : Bytes) :
    pieces maxChunkSize (whole.flatten ++ rest) = whole ++ pieces maxChunkSize rest := by
  induction whole with
  | nil => rfl
  | cons piece others ih =>
    obtain ⟨first, later⟩ := List.forall_mem_cons.mp full
    have filled : (piece :: others).flatten ++ rest ≠ [] := by
      intro none
      rw [List.flatten_cons, List.append_assoc] at none
      have empty := (List.append_eq_nil_iff.mp none).1
      rw [empty] at first
      exact positive first.symm
    rw [pieces_filled positive filled, List.flatten_cons, List.append_assoc, ← first, List.take_left, List.drop_left,
      first, ih later]
    rfl

end

end Mantids.Memory

namespace Mantids.HTTP.UrlStrings

open Memory Memory.BChunks Encoders.URL Decoders.URL

/-- `B_MEM` takes the length of a string as a number of 32 bits. -/
def referenced (text : Bytes) : Bytes := text.take (text.length % 2 ^ 32)

/-- What `B_MEM::copyTo2` hands over, one after the other. -/
def memPieces (text : Bytes) : List Bytes := pieces (64 * 1024) (referenced text)

/-- Whether it succeeds is not told: `streamTo` answers with a truth value, and that is taken for a count. -/
def encodeURLStr (url : Bytes) : Option Bytes :=
  (StreamableObject.copyToSOUsingCleanVector (Encoders.URL.write BChunks.writeFullStream) (memPieces url) .new
    (BChunks.empty .default)).map fun (_, uriEncoded) => uriEncoded.toString wholeContainer 0

/-- `copyToSOUsingCleanVector` to a decoder. -/
def copyToDecoder (d : Decoder BChunks) : List Bytes → Decoder BChunks
  | [] => d
  | piece :: rest =>
    let (cur, d) := d.writeAll (accepts BChunks.writeFullStream) piece.length piece
    if !cur.succeed || decide (cur.bytesWritten ≠ piece.length) then d else copyToDecoder d rest

def decodeURLStr (url : Bytes) : Bytes :=
  let uriDecoder := copyToDecoder (Decoder.new (BChunks.empty .default)) (memPieces url)
  (uriDecoder.writeEOF (accepts BChunks.writeFullStream)).orig.toString wholeContainer 0

/-! ## Encoding -/

theorem encode_stored {pieces : List Bytes} (each : ∀ piece ∈ pieces, piece ≠ [] ∧ piece.length ≤ 64 * 1024) {c : BChunks}
    (room : Room c (pieces.length + 3 * (64 * 1024)) (Encoders.URL.encodeURLStr pieces.flatten).length) (count : Nat) :
    ∃ written c', StreamableObject.copyToSOUsingCleanVector (Encoders.URL.write BChunks.writeFullStream) pieces
        (.all count) c = some (written, c') ∧
      content c'.chunksVector = content c.chunksVector ++ streamChunks pieces ∧ Coherent c' := by
  induction pieces generalizing c count with
  | nil => exact ⟨count, c, rfl, (List.append_nil _).symm, room.coherent⟩
  | cons piece rest ih =>
    obtain ⟨⟨filled, short⟩, each⟩ := List.forall_mem_cons.mp each
    have fits : piece.length ≤ maxStream := Nat.le_trans short (by decide)
    have some := List.length_pos_of_ne_nil filled
    rw [List.flatten_cons, encodeURLStr_append, List.length_append, List.length_cons] at room
    rw [StreamableObject.copyToSOUsingCleanVector, streamChunks]
    by_cases plain : Plain piece
    · -- one chunk for a plain piece
      have same := encodeURLStr_plain plain
      rw [same] at room ⊢
      have single := chunkCount_default.2 some short
      have less : Room c (Limits.default.chunkCount piece.length + (rest.length + 3 * (64 * 1024)))
          (piece.length + (Encoders.URL.encodeURLStr rest.flatten).length) :=
        room.less (by omega) (Nat.le_refl _)
      obtain ⟨between, result, stored, left⟩ := Room.stores filled less
      have written := write_plain plain filled fits (congrArg Prod.fst result)
      rw [result] at written
      rw [StreamableObject.writeFullStream_taken filled (by rw [written]), written]
      obtain ⟨total, c', later, more, coherent⟩ := ih each left (count + piece.length)
      refine ⟨total, c', ?_, ?_, coherent⟩
      · dsimp only
        rw [if_neg (by simp [StreamableObject.Status.all])]
        exact later
      · rw [more, stored, if_pos rfl, List.append_assoc]
    · -- and behind another one the copy ends
      have longer := mt plain_iff_length.mpr plain
      have code : (Encoders.URL.encodeURLStr piece).length ≤ 3 * (64 * 1024) := by
        have part : piece.countP shouldEncodeThisByte ≤ piece.length := List.countP_le_length
        rw [length_encodeURLStr]
        omega
      have less : Room c ((Encoders.URL.encodeURLStr piece).length + 0) ((Encoders.URL.encodeURLStr piece).length + 0) :=
        room.less (by omega) (by omega)
      obtain ⟨c', result, delivers⟩ := write_delivers honest_writeFullStream fits less.not_refuses
      obtain ⟨stored, left⟩ := less.delivered delivers
      rw [StreamableObject.writeFullStream_once filled (length_le_encodeURLStr piece) (by rw [result]), result]
      refine ⟨_, c', if_pos (by simp [StreamableObject.Status.all, longer]), ?_, left.coherent⟩
      rw [stored, if_neg longer, List.append_nil]

theorem streamed_starts (chunks : List Bytes) : streamed chunks <+: chunks.flatten := by
  induction chunks with
  | nil => exact List.prefix_refl _
  | cons chunk rest ih =>
    rw [streamed, List.flatten_cons, List.prefix_append_right_inj]
    split
    · exact ih
    · exact List.nil_prefix

theorem length_code_le (text : Bytes) : (Encoders.URL.encodeURLStr text).length ≤ 3 * text.length := by
  have part : text.countP shouldEncodeThisByte ≤ text.length := List.countP_le_length
  rw [length_encodeURLStr]
  omega

theorem length_referenced (text : Bytes) : (referenced text).length = text.length % 2 ^ 32 := by
  rw [referenced, List.length_take]
  exact Nat.min_eq_left (Nat.mod_le _ _)

theorem flatten_memPieces (text : Bytes) : (memPieces text).flatten = referenced text := flatten_pieces (by decide) _

/-- The string comes as far as the container of a whole string comes. -/
theorem encodeURLStr_eq (url : Bytes) : encodeURLStr url = some (streamChunks (memPieces url)) := by
  have few := length_pieces (show 64 * 1024 ≠ 0 by decide) (referenced url)
  have long := length_code_le (referenced url)
  have word := Nat.mod_lt url.length (show 0 < 2 ^ 32 by decide)
  rw [length_referenced] at few long
  have room : Room (BChunks.empty .default) ((memPieces url).length + 3 * (64 * 1024))
      (Encoders.URL.encodeURLStr (memPieces url).flatten).length := by
    apply room_empty
    · unfold memPieces
      omega
    · rw [flatten_memPieces]
      omega
  have each : ∀ piece ∈ memPieces url, piece ≠ [] ∧ piece.length ≤ 64 * 1024 := pieces_each (by decide) _
  obtain ⟨written, c', result, stored, coherent⟩ := encode_stored each room 0
  have start : StreamableObject.Status.new = .all 0 := rfl
  have part := (streamed_starts (memPieces url)).length_le
  have code := length_code_le (streamed (memPieces url))
  rw [flatten_memPieces, length_referenced] at part
  have size := length_counted coherent.isCounted
  rw [stored, streamChunks_eq] at size
  have below : c'.size < wholeContainer := by
    rw [← size]
    show (Encoders.URL.encodeURLStr (streamed (memPieces url))).length < 2 ^ 64 - 1
    omega
  rw [encodeURLStr, start, result, Option.map_some, Option.some_inj]
  exact (toString_whole coherent below).trans stored

/-! ## Decoding -/

/-- Nothing of a plain text is decoded or kept back. -/
theorem writeAll_plain {σ : Type} {sink : σ → Bytes → Bool × σ} {buf : Bytes} (plain : Plain buf) (filled : buf ≠ [])
    {orig : σ} (taken : (sink orig buf).1 = true) :
    (Decoder.new orig).writeAll sink buf.length buf = (⟨true, buf.length⟩, Decoder.new (sink orig buf).2) := by
  have whole : Decoder.getPlainBytesSize buf = buf.length := by
    rw [Decoder.getPlainBytesSize, List.takeWhile_eq_self_iff.mpr]
    intro byte member
    have free := plain byte member
    have mark : byte ≠ 37 := by
      intro same
      rw [same] at free
      exact absurd free (by decide)
    have plus : byte ≠ 43 := by
      intro same
      rw [same] at free
      exact absurd free (by decide)
    rw [decide_eq_true mark, decide_eq_true plus]
    rfl
  obtain ⟨byte, rest, rfl⟩ := List.exists_cons_of_ne_nil filled
  have one : (Decoder.new orig).write sink (byte :: rest) =
      (⟨true, (byte :: rest).length⟩, Decoder.new (sink orig (byte :: rest)).2) := by
    simp only [Decoder.write, Decoder.new, whole, if_pos (List.length_pos_of_ne_nil filled), List.take_length,
      Decoder.forward, taken]
  rw [List.length_cons, Decoder.writeAll, if_neg filled, one]
  dsimp only
  rw [if_pos rfl, List.drop_length]
  cases rest <;> rfl

section
variable {c : BChunks}

/-- A plain piece is stored in one chunk, and nothing is kept back. -/
theorem decode_plain {whole : List Bytes} (each : ∀ piece ∈ whole, Plain piece ∧ piece.length = 64 * 1024)
    {chunks bytes : Nat} (room : Room c (whole.length + chunks) (whole.flatten.length + bytes)) (rest : List Bytes) :
    ∃ c', copyToDecoder (Decoder.new c) (whole ++ rest) = copyToDecoder (Decoder.new c') rest ∧
      content c'.chunksVector = content c.chunksVector ++ whole.flatten ∧ Room c' chunks bytes := by
  induction whole generalizing c with
  | nil =>
    rw [List.flatten_nil, List.length_nil, List.length_nil, Nat.zero_add, Nat.zero_add] at room
    exact ⟨c, rfl, (List.append_nil _).symm, room⟩
  | cons piece others ih =>
    obtain ⟨⟨plain, full⟩, each⟩ := List.forall_mem_cons.mp each
    have some : 0 < piece.length := by omega
    have filled : piece ≠ [] := List.ne_nil_of_length_pos some
    have single := chunkCount_default.2 some (Nat.le_of_eq full)
    rw [List.flatten_cons, List.length_append, List.length_cons] at room
    have less : Room c (Limits.default.chunkCount piece.length + (others.length + chunks))
        (piece.length + (others.flatten.length + bytes)) :=
      room.less (by omega) (by omega)
    obtain ⟨between, result, stored, left⟩ := Room.stores filled less
    have written : (Decoder.new c).writeAll (accepts BChunks.writeFullStream) piece.length piece =
        (⟨true, piece.length⟩, Decoder.new between) := by
      have taken : (accepts BChunks.writeFullStream c piece).1 = true := by
        rw [accepts, result]
        rfl
      rw [writeAll_plain plain filled taken, accepts, result]
    obtain ⟨c', later, more, last⟩ := ih each left
    refine ⟨c', ?_, ?_, last⟩
    · rw [List.cons_append, copyToDecoder, written]
      dsimp only
      rw [if_neg (by simp)]
      exact later
    · rw [more, stored, List.flatten_cons, List.append_assoc]

/-- The copy is one write after the other. -/
theorem copyToDecoder_eq {d : Decoder BChunks} (held : d.bytes.length ≤ 2) (writes : List Bytes) :
    copyToDecoder d writes = (d.feed (accepts BChunks.writeFullStream) writes).2 := by
  induction writes generalizing d with
  | nil => rfl
  | cons piece rest ih =>
    obtain ⟨passes, kept⟩ :=
      Decoder.passes_writeAll (accepts BChunks.writeFullStream) piece held (Nat.le_refl piece.length)
    rw [copyToDecoder, Decoder.feed]
    generalize d.writeAll (accepts BChunks.writeFullStream) piece.length piece = result at passes kept
    obtain ⟨cur, between⟩ := result
    obtain ⟨status, -⟩ | ⟨failed, -⟩ := passes
    · obtain rfl := status
      dsimp only
      rw [if_neg (by simp), if_pos rfl]
      exact ih kept
    · dsimp only at failed ⊢
      rw [failed, if_neg Bool.false_ne_true]
      rfl

/-- With room for it the rest is decoded as it should be. -/
theorem decode_rest (writes : List Bytes) (room : Room c writes.flatten.length writes.flatten.length) :
    let stored := ((copyToDecoder (Decoder.new c) writes).writeEOF (accepts BChunks.writeFullStream)).orig
    content stored.chunksVector = content c.chunksVector ++ Decoders.URL.decodeURLStr writes.flatten ∧
      Coherent stored := by
  intro stored
  have fewer := length_decodeURLStr_le writes.flatten
  have less : Room c ((reference writes.flatten).length + 0) ((reference writes.flatten).length + 0) := by
    rw [reference_eq]
    exact room.less fewer fewer
  obtain ⟨-, delivers⟩ | refuses := Decoder.passes_stream (accepts BChunks.writeFullStream) c writes
  · have few : (Decoder.new c).bytes.length ≤ 2 := Nat.zero_le 2
    rw [← copyToDecoder_eq few] at delivers
    obtain ⟨held, left⟩ := less.delivered delivers
    rw [reference_eq] at held
    exact ⟨held, left.coherent⟩
  · exact absurd refuses less.not_refuses

end

/-- Whole plain pieces and no more behind them than there are chunks left. -/
theorem decodeURLStr_eq {url rest : Bytes} {whole : List Bytes}
    (each : ∀ piece ∈ whole, Plain piece ∧ piece.length = 64 * 1024) (split : referenced url = whole.flatten ++ rest)
    (few : whole.length + rest.length ≤ 256 * 1024) :
    decodeURLStr url = whole.flatten ++ Decoders.URL.decodeURLStr rest := by
  have word := Nat.mod_lt url.length (show 0 < 2 ^ 32 by decide)
  have length := length_referenced url
  rw [split, List.length_append] at length
  have cut : memPieces url = whole ++ pieces (64 * 1024) rest := by
    rw [memPieces, split]
    exact pieces_append (by decide) (fun piece member => (each piece member).2) rest
  have room : Room (BChunks.empty .default) (whole.length + rest.length) (whole.flatten.length + rest.length) :=
    room_empty few (by omega)
  obtain ⟨c, result, stored, left⟩ := decode_plain each room (pieces (64 * 1024) rest)
  have joined : (pieces (64 * 1024) rest).flatten = rest := flatten_pieces (by decide) rest
  obtain ⟨held, coherent⟩ := decode_rest (pieces (64 * 1024) rest) (by rw [joined]; exact left)
  rw [stored, joined] at held
  rw [decodeURLStr, cut, result]
  refine (toString_whole coherent ?_).trans held
  have bound := length_decodeURLStr_le rest
  have size := length_counted coherent.isCounted
  rw [held, List.length_append, List.length_append] at size
  have none : (content (BChunks.empty .default).chunksVector).length = 0 := rfl
  rw [← size]
  show _ < 2 ^ 64 - 1
  omega

/-! ## There and back -/

/-- What comes through is whole plain pieces, and one more piece. -/
theorem streamed_split (buf : Bytes) : ∃ (whole : List Bytes) (last : Bytes), streamed (pieces (64 * 1024) buf) = whole.flatten ++ last ∧
    (∀ piece ∈ whole, Plain piece ∧ piece.length = 64 * 1024) ∧ last.length ≤ 64 * 1024 := by
  have positive : 64 * 1024 ≠ 0 := by decide
  apply pieces_induction positive (motive := fun buf => ∃ (whole : List Bytes) (last : Bytes),
    streamed (pieces (64 * 1024) buf) = whole.flatten ++ last ∧
      (∀ piece ∈ whole, Plain piece ∧ piece.length = 64 * 1024) ∧ last.length ≤ 64 * 1024)
  case nil => exact ⟨[], [], rfl, List.forall_mem_nil _, Nat.zero_le _⟩
  case cons =>
    rintro buf filled ⟨whole, last, split, each, short⟩
    rw [pieces_filled positive filled, streamed]
    have first : (buf.take (64 * 1024)).length ≤ 64 * 1024 := by
      rw [List.length_take]
      exact Nat.min_le_left _ _
    by_cases more : Plain (buf.take (64 * 1024)) ∧ (buf.take (64 * 1024)).length = 64 * 1024
    · refine ⟨buf.take (64 * 1024) :: whole, last, ?_, List.forall_mem_cons.mpr ⟨more, each⟩, short⟩
      rw [if_pos (plain_iff_length.mp more.1), split, List.flatten_cons, List.append_assoc]
    · -- with a byte to encode, or too short, it is the last that comes through
      refine ⟨[], buf.take (64 * 1024), ?_, List.forall_mem_nil _, first⟩
      rw [List.flatten_nil, List.nil_append]
      split
      case isTrue same =>
        have plain := plain_iff_length.mpr same
        have ended : buf.drop (64 * 1024) = [] := by
          rw [List.drop_eq_nil_iff]
          by_contra long
          apply more
          refine ⟨plain, ?_⟩
          rw [List.length_take]
          omega
        rw [ended]
        exact List.append_nil _
      case isFalse _ => exact List.append_nil _

theorem length_whole {whole : List Bytes} {size : Nat} (full : ∀ piece ∈ whole, piece.length = size) :
    whole.flatten.length = whole.length * size := by
  induction whole with
  | nil => exact (Nat.zero_mul size).symm
  | cons piece others ih =>
    obtain ⟨first, later⟩ := List.forall_mem_cons.mp full
    rw [List.flatten_cons, List.length_append, ih later, first, List.length_cons, Nat.succ_mul, Nat.add_comm]

/-- The code of what came through decodes to that, unless its length is no number of 32 bits: then it is shorter. -/
theorem decode_code (buf : Bytes) (word : buf.length < 2 ^ 32) :
    let text := streamed (pieces (64 * 1024) buf)
    ((Encoders.URL.encodeURLStr text).length < 2 ^ 32 → decodeURLStr (Encoders.URL.encodeURLStr text) = text) ∧
      (2 ^ 32 ≤ (Encoders.URL.encodeURLStr text).length →
        (decodeURLStr (Encoders.URL.encodeURLStr text)).length < text.length) := by
  intro text
  obtain ⟨whole, last, split, each, short⟩ := streamed_split buf
  have code : Encoders.URL.encodeURLStr text = whole.flatten ++ Encoders.URL.encodeURLStr last := by
    have plain : Plain whole.flatten := by
      intro byte member
      obtain ⟨piece, inside, there⟩ := List.mem_flatten.mp member
      exact (each piece inside).1 byte there
    rw [show text = whole.flatten ++ last from split, encodeURLStr_append, encodeURLStr_plain plain]
  have long := length_code_le last
  have size : text.length = whole.flatten.length + last.length := by
    rw [show text = whole.flatten ++ last from split, List.length_append]
  have total := length_whole fun piece member => (each piece member).2
  have part : text.length ≤ buf.length := by
    have starts := (streamed_starts (pieces (64 * 1024) buf)).length_le
    rwa [flatten_pieces (by decide)] at starts
  have codeSize := congrArg List.length code
  rw [List.length_append] at codeSize
  constructor
  · intro small
    have all : referenced (Encoders.URL.encodeURLStr text) = whole.flatten ++ Encoders.URL.encodeURLStr last := by
      rw [referenced, Nat.mod_eq_of_lt small, List.take_length, code]
    rw [decodeURLStr_eq each all (by omega), decode_encode]
    exact split.symm
  · intro large
    -- what is left of the code is short
    have left : (Encoders.URL.encodeURLStr text).length % 2 ^ 32 = (Encoders.URL.encodeURLStr text).length - 2 ^ 32 := by
      rw [Nat.mod_eq_sub_mod large, Nat.mod_eq_of_lt (by omega)]
    have rest := length_referenced (Encoders.URL.encodeURLStr text)
    have none : ∀ piece ∈ ([] : List Bytes), Plain piece ∧ piece.length = 64 * 1024 := List.forall_mem_nil _
    have bound := length_decodeURLStr_le (referenced (Encoders.URL.encodeURLStr text))
    have few : ([] : List Bytes).length + (referenced (Encoders.URL.encodeURLStr text)).length ≤ 256 * 1024 := by
      rw [rest, List.length_nil]
      omega
    have alone : referenced (Encoders.URL.encodeURLStr text) =
        ([] : List Bytes).flatten ++ referenced (Encoders.URL.encodeURLStr text) := rfl
    rw [decodeURLStr_eq none alone few, List.flatten_nil, List.nil_append]
    omega

/-- Where no piece is too long, what comes through is what the copy streams. -/
theorem reached_short {chunks : List Bytes} (short : ∀ chunk ∈ chunks, chunk.length ≤ maxStream) :
    reached chunks = streamChunks chunks := by
  induction chunks with
  | nil => rfl
  | cons chunk rest ih =>
    obtain ⟨first, later⟩ := List.forall_mem_cons.mp short
    rw [reached, streamChunks, if_neg (Nat.not_lt.mpr first), ih later]
    simp only [plain_iff_length]

theorem undivided_iff_streamed {chunks : List Bytes} (short : ∀ chunk ∈ chunks, chunk.length ≤ maxStream) :
    Undivided chunks ↔ streamed chunks = chunks.flatten := by
  rw [← reached_eq_iff, reached_short short, streamChunks_eq]
  constructor
  · exact encodeURLStr_inj
  · exact congrArg Encoders.URL.encodeURLStr

/-- The string is decoded to itself when it has been encoded. -/
def ComesBack (s : Bytes) : Prop := (encodeURLStr s).map decodeURLStr = some s

theorem returns_iff (s : Bytes) : ComesBack s ↔
    Undivided (pieces (64 * 1024) s) ∧ s.length + 2 * s.countP shouldEncodeThisByte < 2 ^ 32 := by
  have word := Nat.mod_lt s.length (show 0 < 2 ^ 32 by decide)
  have length := length_referenced s
  obtain ⟨back, shorter⟩ := decode_code (referenced s) (by omega)
  have part := (streamed_starts (pieces (64 * 1024) (referenced s))).length_le
  rw [flatten_pieces (by decide)] at part
  rw [← memPieces] at back shorter part
  have short : ∀ piece ∈ pieces (64 * 1024) s, piece.length ≤ maxStream := by
    intro piece member
    exact Nat.le_trans (pieces_each (by decide) s piece member).2 (by decide)
  rw [ComesBack, encodeURLStr_eq, Option.map_some, Option.some_inj, streamChunks_eq, undivided_iff_streamed short,
    flatten_pieces (by decide), ← length_encodeURLStr]
  constructor
  · intro same
    -- nothing was cut off
    have bound : s.length ≤ (streamed (memPieces s)).length := by
      rcases Nat.lt_or_ge (Encoders.URL.encodeURLStr (streamed (memPieces s))).length (2 ^ 32) with small | large
      · rw [← back small, same]
      · have less := shorter large
        rw [same] at less
        exact Nat.le_of_lt less
    have all : referenced s = s := List.take_of_length_le (by omega)
    rcases Nat.lt_or_ge (Encoders.URL.encodeURLStr (streamed (memPieces s))).length (2 ^ 32) with small | large
    · have through : streamed (memPieces s) = s := (back small).symm.trans same
      rw [through] at small
      rw [memPieces, all] at through
      exact ⟨through, small⟩
    · have less := shorter large
      rw [same] at less
      rw [all] at part
      omega
  · rintro ⟨through, small⟩
    have least := length_le_encodeURLStr s
    have all : referenced s = s := by
      rw [referenced, Nat.mod_eq_of_lt (by omega), List.take_length]
    have same : streamed (memPieces s) = s := by
      rw [memPieces, all, through]
    rw [same] at back ⊢
    exact back small

/-! ## In one write and from a container -/

section
variable {σ : Type} (writeFullStream : σ → Bytes → StreamableObject.Status × σ) (accepted : σ → Bytes) (orig : σ)

/-- A write reports no more than it was given, and all of that is encoded behind it. -/
def WrittenOnce (s : Bytes) : Prop :=
  (Encoders.URL.write writeFullStream orig s).1.bytesWritten ≤ s.length ∧
    accepted (Encoders.URL.write writeFullStream orig s).2 = accepted orig ++ Encoders.URL.encodeURLStr s

/-- What a container holds is encoded behind it; at the end of a stream the encoder does nothing. -/
def StreamedOnce (c : BChunks) : Prop :=
  ∃ done orig', c.streamTo (Encoders.URL.write writeFullStream) id orig = some (done, orig') ∧
    accepted orig' = accepted orig ++ Encoders.URL.encodeURLStr (content c.chunksVector)

end

section
variable {σ : Type} {writeFullStream : σ → Bytes → StreamableObject.Status × σ} {accepted : σ → Bytes}
  (accepting : StreamableObject.Accepting writeFullStream accepted) (orig : σ)
include accepting

theorem writtenOnce_iff (s : Bytes) :
    WrittenOnce writeFullStream accepted orig s ↔ s.length ≤ maxStream ∧ Plain s := by
  unfold WrittenOnce
  by_cases fits : s.length ≤ maxStream
  · obtain ⟨orig', result, stored⟩ := write_accepting accepting fits orig
    have least := length_le_encodeURLStr s
    rw [result, plain_iff_length]
    show (Encoders.URL.encodeURLStr s).length ≤ s.length ∧ _ ↔ _
    constructor
    · intro once
      exact ⟨fits, Nat.le_antisymm once.1 least⟩
    · intro plain
      exact ⟨Nat.le_of_eq plain.2, stored⟩
  · have refused : Encoders.URL.write writeFullStream orig s = (⟨0, false, false⟩, orig) := if_pos (Nat.lt_of_not_le fits)
    rw [refused]
    apply iff_of_false
    · rintro ⟨-, same⟩
      have none := encodeURLStr_eq_nil.mp (List.self_eq_append_right.mp same)
      rw [none] at fits
      exact fits (Nat.zero_le _)
    · rintro ⟨fits', -⟩
      exact fits fits'

omit accepting in
/-- The walk over the chunks leaves out none that has bytes. -/
theorem reached_copyChunks (chunks : List BinaryContainerChunk) :
    reached (copyChunks chunks (totalSize chunks)) = reached (chunks.map BinaryContainerChunk.data) := by
  induction chunks with
  | nil => rfl
  | cons chunk rest ih =>
    have all : chunk.data.take (totalSize (chunk :: rest)) = chunk.data := by
      apply List.take_of_length_le
      rw [totalSize_cons, BinaryContainerChunk.size]
      omega
    have left : totalSize (chunk :: rest) - chunk.data.length = totalSize rest := by
      rw [totalSize_cons, BinaryContainerChunk.size]
      omega
    rw [copyChunks, List.map_cons]
    simp only [all, left]
    split
    case isTrue done =>
      have none : (rest.map BinaryContainerChunk.data).flatten = [] := by
        rw [← List.length_eq_zero_iff, ← done, ← length_content]
        rfl
      simp only [reached, reached_empty (List.flatten_eq_nil_iff.mp none)]
    case isFalse _ => simp only [reached, ih]

theorem streamedOnce_iff {c : BChunks} (counted : Counted c) :
    StreamedOnce writeFullStream accepted orig c ↔ Undivided (c.chunksVector.map BinaryContainerChunk.data) := by
  have word : c.size < 2 ^ 64 := counted.word
  have whole : c.appendTo (Encoders.URL.write writeFullStream) orig wholeContainer 0 =
      c.appendTo (Encoders.URL.write writeFullStream) orig c.size 0 := by
    unfold appendTo baseChecked
    rw [bytesToRead_front word (Nat.le_refl _)]
    rfl
  have streamed : ∃ done orig', c.streamTo (Encoders.URL.write writeFullStream) id orig = some (done, orig') ∧
      accepted orig' = accepted orig ++ reached (c.chunksVector.map BinaryContainerChunk.data) := by
    unfold BChunks.streamTo
    rw [whole, appendTo_front counted _ orig (Nat.le_refl _)]
    have total : c.size = totalSize c.chunksVector := counted.bytes
    by_cases none : c.size = 0
    · have empty : content c.chunksVector = [] := by
        rw [← List.length_eq_zero_iff, length_counted counted]
        exact none
      rw [if_pos none, reached_empty (List.flatten_eq_nil_iff.mp empty)]
      exact ⟨true, orig, rfl, (List.append_nil _).symm⟩
    · obtain ⟨written, orig', result, stored⟩ := copy_reached accepting (copyChunks c.chunksVector c.size) 0 orig
      have start : StreamableObject.Status.new = .all 0 := rfl
      rw [if_neg none, start, result]
      rw [total, reached_copyChunks] at stored
      exact ⟨true, orig', rfl, stored⟩
  obtain ⟨done, orig', result, stored⟩ := streamed
  rw [← reached_eq_iff, StreamedOnce, result]
  constructor
  · rintro ⟨_, _, same, once⟩
    cases same
    rw [stored] at once
    exact List.append_cancel_left once
  · intro same
    refine ⟨done, orig', rfl, ?_⟩
    rw [stored, same]
    rfl

/-- Nothing is lost in these cases only: in one write without a byte to encode, from a container with none before
its last bytes, and there and back with none before the last 64 KiB. -/
theorem lossless_iff {c : BChunks} (counted : Counted c) (s : Bytes) :
    (WrittenOnce writeFullStream accepted orig s ↔ s.length ≤ maxStream ∧ Plain s) ∧
      (StreamedOnce writeFullStream accepted orig c ↔ Undivided (c.chunksVector.map BinaryContainerChunk.data)) ∧
      (ComesBack s ↔ Undivided (pieces (64 * 1024) s) ∧ s.length + 2 * s.countP shouldEncodeThisByte < 2 ^ 32) :=
  ⟨writtenOnce_iff accepting orig s, streamedOnce_iff accepting orig counted, returns_iff s⟩

end

/-- A stream that keeps all it is given. -/
def keep (kept buf : Bytes) : StreamableObject.Status × Bytes := (.all buf.length, kept ++ buf)

theorem accepting_keep : StreamableObject.Accepting keep id := fun _ _ => ⟨rfl, rfl⟩

/-- A letter, and a container with a mark in its last chunk. -/
theorem lossless_iff_letter :
    (WrittenOnce keep id [] [97] ↔ ([97] : Bytes).length ≤ maxStream ∧ Plain [97]) ∧
      (StreamedOnce keep id [] ⟨[⟨[97], 0⟩, ⟨[37], 1⟩], 2, .default⟩ ↔ Undivided [[97], [37]]) ∧
      (ComesBack [97] ↔
        Undivided (pieces (64 * 1024) [97]) ∧ ([97] : Bytes).length + 2 * [97].countP shouldEncodeThisByte < 2 ^ 32) :=
  lossless_iff accepting_keep [] (c := ⟨[⟨[97], 0⟩, ⟨[37], 1⟩], 2, .default⟩) ⟨rfl, by decide⟩ [97]

/-- Behind 64 KiB with a byte to encode nothing comes back. -/
theorem not_comesBack {first rest : Bytes} (full : first.length = 64 * 1024) (special : ¬Plain first)
    (filled : rest ≠ []) : ¬ComesBack (first ++ rest) := by
  rw [returns_iff]
  rintro ⟨undivided, -⟩
  have split := pieces_append (by decide) (List.forall_mem_singleton.mpr full) rest
  rw [List.flatten_singleton] at split
  rw [split, List.singleton_append, Undivided, flatten_pieces (by decide)] at undivided
  rcases undivided.2.1 with plain | none
  · exact special plain
  · exact filled none

/-- 64 KiB of marks. -/
def marks : Bytes := List.replicate (64 * 1024) 37

theorem length_marks : marks.length = 64 * 1024 := by
  rw [marks, List.length_replicate]

theorem not_plain_marks : ¬Plain marks := by
  intro plain
  have member : (37 : UInt8) ∈ marks := by
    rw [marks, List.mem_replicate]
    exact ⟨by decide, rfl⟩
  exact absurd (plain 37 member) (by decide)

/-- A mark alone is reported as three bytes, behind it in a container nothing is written, and behind 64 KiB of them
nothing comes back. -/
theorem not_lossless : ¬WrittenOnce keep id [] [37] ∧
    ¬StreamedOnce keep id [] ⟨[⟨[37], 0⟩, ⟨[97], 1⟩], 2, .default⟩ ∧
    ¬ComesBack (marks ++ [97]) := by
  refine ⟨?_, ?_, ?_⟩
  · rw [writtenOnce_iff accepting_keep]
    decide
  · rw [streamedOnce_iff accepting_keep [] ⟨rfl, by decide⟩]
    decide
  · exact not_comesBack length_marks not_plain_marks (by decide)

end Mantids.HTTP.UrlStrings
