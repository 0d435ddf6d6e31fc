import Mathlib
import Mantids.Memory.CopyOut
import Mantids.Memory.WholeElements
import Mantids.Protocols.HttpContent

/-! Chunked transfer there and back: a container in one chunk comes back, of one in several
only the first chunk is streamed. -/

set_option autoImplicit false

namespace Mantids.HTTP

open Memory Memory.Streams

/-! ## Hexadecimal numbers -/

section
open Decoders.URL Encoders.URL

theorem isxdigit_hexDigit {digit : Nat} (small : digit < 16) : isxdigit (hexDigit (UInt8.ofNat digit)) = true ∧
    (hexValue (hexDigit (UInt8.ofNat digit))).toNat = digit := by
  have all : ∀ digit : Fin 16, isxdigit (hexDigit (UInt8.ofNat digit)) = true ∧
      (hexValue (hexDigit (UInt8.ofNat digit))).toNat = digit := by decide
  exact all ⟨digit, small⟩

theorem hexadecimal_digits (value : Nat) : ∀ byte ∈ hexadecimal value, isxdigit byte = true := by
  unfold hexadecimal
  split
  · decide
  · intro byte member
    obtain ⟨digit, inside, rfl⟩ := List.mem_map.mp member
    exact (isxdigit_hexDigit (Nat.digits_lt_base (by decide) (List.mem_reverse.mp inside))).1

theorem hexadecimal_ne_nil (value : Nat) : hexadecimal value ≠ [] := by
  unfold hexadecimal
  split
  · simp
  · rename_i some
    simpa [Nat.digits_ne_nil_iff_ne_zero] using some

theorem hexDigitsValue_map (digits : List Nat) (small : ∀ digit ∈ digits, digit < 16) (value : Nat) :
    hexDigitsValue value (digits.map fun digit => hexDigit (UInt8.ofNat digit)) =
      digits.foldl (fun value digit => value * 16 + digit) value := by
  induction digits generalizing value with
  | nil => rfl
  | cons digit rest ih =>
    rw [List.forall_mem_cons] at small
    obtain ⟨coded, same⟩ := isxdigit_hexDigit small.1
    rw [List.map_cons, hexDigitsValue, if_pos coded, same, List.foldl_cons, ih small.2]

theorem hexDigitsValue_hexadecimal (value : Nat) : hexDigitsValue 0 (hexadecimal value) = value := by
  unfold hexadecimal
  split
  · rename_i zero
    rw [zero]
    rfl
  · rw [hexDigitsValue_map _ fun digit member => Nat.digits_lt_base (by decide) (List.mem_reverse.mp member),
      List.foldl_reverse]
    have digits := Nat.ofDigits_digits 16 value
    rw [Nat.ofDigits_eq_foldr] at digits
    conv_rhs => rw [← digits]
    congr 1
    funext digit value
    simp [Nat.mul_comm, Nat.add_comm]

theorem isxdigit_ne {byte : UInt8} (digit : isxdigit byte = true) :
    byte ≠ 0 ∧ isSpace byte = false ∧ byte ≠ 45 ∧ byte ≠ 43 ∧ byte ≠ 120 ∧ byte ≠ 88 ∧ byte ≠ 13 := by
  have space : isSpace byte = false := by
    rw [Bool.eq_false_iff]
    intro space
    simp only [isxdigit, isSpace, UInt8.le_iff_toNat_le, ← UInt8.toNat_inj, Bool.or_eq_true, Bool.and_eq_true,
      decide_eq_true_eq, UInt8.reduceToNat] at digit space
    omega
  have others : ∀ other, isxdigit other = false → byte ≠ other := by
    rintro other none rfl
    rw [none] at digit
    contradiction
  exact ⟨others 0 rfl, space, others 45 rfl, others 43 rfl, others 120 rfl, others 88 rfl, others 13 rfl⟩

theorem withoutPrefix_digits {text : Bytes} (digits : ∀ byte ∈ text, isxdigit byte = true) :
    withoutPrefix text = text := by
  unfold withoutPrefix
  split
  · rename_i mark digit rest
    have facts := isxdigit_ne (digits mark (by simp))
    rw [if_neg]
    rintro ⟨either, -⟩
    rcases either with rfl | rfl <;> simp at facts
  · rfl

theorem strtoulHexadecimal_digits {text : Bytes} (digits : ∀ byte ∈ text, isxdigit byte = true) :
    strtoulHexadecimal text = min (hexDigitsValue 0 text) (2 ^ 64 - 1) := by
  have whole : cString text = text := by
    rw [cString, List.takeWhile_eq_self_iff]
    intro byte member
    simpa using (isxdigit_ne (digits byte member)).1
  have begins : text.dropWhile isSpace = text := by
    rw [List.dropWhile_eq_self_iff]
    intro some
    simp [(isxdigit_ne (digits _ (List.getElem_mem some))).2.1]
  unfold strtoulHexadecimal
  rw [whole, begins]
  split
  · have facts := isxdigit_ne (digits 45 (by simp))
    simp at facts
  · have facts := isxdigit_ne (digits 43 (by simp))
    simp at facts
  · rw [withoutPrefix_digits digits]

theorem parseHttpChunkSize_hexadecimal {size : Nat} (small : size ≤ 65536) :
    Content.parseHttpChunkSize (hexadecimal size) = size := by
  rw [Content.parseHttpChunkSize, strtoulHexadecimal_digits (hexadecimal_digits size), hexDigitsValue_hexadecimal]
  have limit : Content.securityMaxHttpChunkSize = 16777216 := rfl
  rw [Nat.min_eq_left (by omega), Nat.mod_eq_of_lt (by omega), if_neg (by omega)]

end

/-! ## The stream -/

/-- The container that a body has been written to, piece by piece. -/
def held (pieces : List Bytes) : BChunks := pieces.foldl (fun container piece => (container.append piece).2) (.empty .default)

/-- A container that has only been appended to. -/
structure Whole (container : BChunks) : Prop where
  coherent : container.Coherent
  sized : container.Sized
  nonempty : ∀ chunk ∈ container.chunksVector, chunk.size ≠ 0
  limits : container.limits = Limits.default

theorem whole_append {container : BChunks} (whole : Whole container) (piece : Bytes) :
    Whole (container.append piece).2 where
  coherent := by
    apply (BChunks.append_coherent_iff whole.coherent piece).mpr
    intro _ _
    rw [whole.limits]
    decide
  sized := whole.sized.insert false piece
  nonempty := BChunks.nonempty_append (by rw [whole.limits]; decide) whole.nonempty piece
  limits := by
    rw [BChunks.limits_append, whole.limits]

theorem whole_held (pieces : List Bytes) : Whole (held pieces) := by
  have all : ∀ container, Whole container →
      Whole (pieces.foldl (fun container piece => (container.append piece).2) container) := by
    induction pieces with
    | nil => exact fun _ whole => whole
    | cons piece rest ih => exact fun container whole => ih _ (whole_append whole piece)
  exact all _ ⟨BChunks.coherent_of_empty rfl rfl, BChunks.sized_empty _, fun _ none => absurd none List.not_mem_nil, rfl⟩

theorem copyChunks_totalSize {chunks : List BinaryContainerChunk} (nonempty : ∀ chunk ∈ chunks, chunk.size ≠ 0) :
    BChunks.copyChunks chunks (totalSize chunks) = chunks.map BinaryContainerChunk.data := by
  induction chunks with
  | nil => rfl
  | cons chunk rest ih =>
    rw [List.forall_mem_cons] at nonempty
    have all : chunk.data.take (totalSize (chunk :: rest)) = chunk.data := by
      apply List.take_of_length_le
      rw [totalSize_cons, BinaryContainerChunk.size]
      omega
    have left : totalSize (chunk :: rest) - chunk.data.length = totalSize rest := by
      rw [totalSize_cons, BinaryContainerChunk.size]
      omega
    simp only [BChunks.copyChunks, all, left, ih nonempty.2, List.map_cons]
    split
    · rename_i nothing
      have none : rest = [] := by
        have few := BChunks.length_le_of_nonempty nonempty.2
        exact List.length_eq_zero_iff.mp (by omega)
      rw [none]
      rfl
    · rfl

/-- One write is all it takes where more than the bytes are reported. -/
theorem writeFullStream_chunked {chunk : Bytes} (filled : chunk ≠ []) (retr : ContentChunkedSubParser) :
    writeFullStream ContentChunkedSubParser.write chunk chunk.length 0 retr = retr.write chunk := by
  obtain ⟨turns, length⟩ := Nat.exists_eq_succ_of_ne_zero (Nat.ne_of_gt (List.length_pos_of_ne_nil filled))
  have beyond : ¬0 + (retr.write chunk).1 < chunk.length := by
    simp only [ContentChunkedSubParser.write]
    omega
  rw [length, writeFullStream, if_pos (by omega), List.drop_zero]
  cases turns with
  | zero => simp [writeFullStream]
  | succ turns =>
    dsimp only
    rw [writeFullStream, if_neg beyond, Nat.zero_add]

/-- The header is reported with the first chunk, and the copy ends. -/
theorem copy_chunked {chunk : Bytes} (filled : chunk ≠ []) (rest : List Bytes) (retr : ContentChunkedSubParser) :
    copyToSOUsingCleanVector ContentChunkedSubParser.write (chunk :: rest) retr = (retr.write chunk).2 := by
  have header := List.length_pos_of_ne_nil (hexadecimal_ne_nil (chunk.length % 2 ^ 32))
  rw [copyToSOUsingCleanVector, writeFullStream_chunked filled]
  dsimp only
  rw [if_pos]
  simp only [ContentChunkedSubParser.write, List.length_append]
  omega

/-- What is streamed of the first chunk. -/
def coded : List BinaryContainerChunk → Bytes
  | [] => [48, 13, 10, 13, 10]
  | chunk :: _ => hexadecimal chunk.size ++ [13, 10] ++ chunk.data ++ [13, 10, 48, 13, 10, 13, 10]

theorem streamContent_whole {container : BChunks} (whole : Whole container) :
    streamContent .transmitModeChunks container = coded container.chunksVector := by
  have counted := whole.coherent.isCounted
  have bytes := counted.bytes
  rw [streamContent, streamTo, BChunks.size, bytes]
  have each := whole.sized.each
  have nonempty := whole.nonempty
  have maxChunkSize : container.limits.maxChunkSize = 65536 := by
    rw [whole.limits]
    rfl
  rw [maxChunkSize] at each
  cases vector : container.chunksVector with
  | nil => rfl
  | cons chunk rest =>
    rw [vector] at each nonempty
    rw [List.forall_mem_cons] at each
    have some := nonempty chunk (.head _)
    have filled : chunk.data ≠ [] := List.ne_nil_of_length_pos (Nat.pos_of_ne_zero some)
    have size : chunk.size = chunk.data.length := rfl
    rw [if_neg (by rw [totalSize_cons]; omega), copyChunks_totalSize nonempty, List.map_cons, copy_chunked filled]
    simp only [ContentChunkedSubParser.write, ContentChunkedSubParser.endBuffer, coded, if_true, List.nil_append]
    rw [Nat.mod_eq_of_lt (by omega), Nat.zero_add, Nat.mod_eq_of_lt (by omega), if_neg (by omega)]
    simp [size]

/-! ## The stream read -/

/-- A content parser for chunks, with the limits of its constructor. -/
def Content.chunksParser : Parser Content :=
  let (settings, content) := Content.setTransmitionMode ⟨.procModeContentLength, []⟩ .new .transmitModeChunks
  ⟨some (.new settings), content⟩

/-- However the stream of the container is cut, the content is read to its end and is what the container holds. -/
def RoundTrips (container : BChunks) : Prop :=
  ∀ writes : List Bytes, (∀ buf ∈ writes, buf ≠ []) → writes.flatten = streamContent .transmitModeChunks container →
    (Content.protocol.writeAll Content.chunksParser writes).1 = .finished ∧
      (Content.protocol.writeAll Content.chunksParser writes).2.user.outStream =
        content container.chunksVector

theorem length_hexadecimal {size : Nat} (small : size ≤ 65536) : (hexadecimal size).length ≤ 5 := by
  unfold hexadecimal
  split
  · decide
  · rw [List.length_map, List.length_reverse]
    exact (Nat.digits_length_le_iff (by decide) _).mpr (by omega)

/-- The settings in which the number of a chunk is waited for. -/
structure SizeLine (settings : Settings) : Prop where
  mode : settings.parseMode = .delimiter
  delimiter : settings.parseDelimiter = [13, 10]
  target : 7 ≤ (settings.parseDataTargetSize : Nat)
  bounded : (settings.parseDataTargetSize : Nat) ≤ 1024

theorem SizeLine.small {settings : Settings} (line : SizeLine settings) : settings.Small where
  mode := .inl line.mode
  some := by
    have target := line.target
    omega
  target := by
    have bounded := line.bounded
    have maxChunks : Limits.default.maxChunks = 262144 := rfl
    omega

theorem SizeLine.firstElement {settings : Settings} (line : SizeLine settings) {size : Nat} (small : size ≤ 65536)
    (rest : Bytes) : settings.firstElement (hexadecimal size ++ [13, 10] ++ rest) =
      some ⟨hexadecimal size, none, (hexadecimal size).length + 2⟩ := by
  have short := length_hexadecimal small
  have target := line.target
  have absent : 13 ∉ hexadecimal size := by
    intro member
    have facts := isxdigit_ne (hexadecimal_digits size 13 member)
    simp at facts
  have here : settings.firstDelimiter ((hexadecimal size ++ [13, 10]).take settings.parseDataTargetSize) =
      some ⟨(hexadecimal size).length, 2, none⟩ := by
    rw [List.take_of_length_le (by simp; omega)]
    simp only [Settings.firstDelimiter, line.mode, line.delimiter]
    have found := Library.occurrence_of_notMem absent [10] []
    rw [List.append_nil] at found
    rw [found]
    rfl
  apply Settings.firstElement_append
  rw [Settings.firstElement_delimiter (by rw [line.mode]; simp), here]
  simp [Found.element]

/-- The settings for the next bytes of a chunk. -/
def exactly (settings : Settings) (size : Fin (2 ^ 64)) : Settings :=
  { settings.setParseMode .size with parseDataTargetSize := size }

theorem small_exactly {settings : Settings} {size : Fin (2 ^ 64)} (some : 0 < (size : Nat)) (bound : (size : Nat) ≤ 65536) :
    (exactly settings size).Small where
  mode := .inr rfl
  some := some
  target := Nat.le_trans bound (by decide)

theorem firstElement_exactly {settings : Settings} {size : Fin (2 ^ 64)} {text : Bytes} (filled : text ≠ [])
    (target : (size : Nat) = text.length) (rest : Bytes) :
    (exactly settings size).firstElement (text ++ rest) = some ⟨text, none, text.length⟩ := by
  have same : ((exactly settings size).parseDataTargetSize : Nat) = text.length := target
  apply Settings.firstElement_append
  rw [Settings.firstElement_size rfl, same, if_pos ⟨filled, Nat.le_refl _⟩, List.take_length]

/-- The settings for the number behind a chunk. -/
def nextSize (settings : Settings) : Settings :=
  { settings.setParseMode .delimiter with parseDelimiter := [13, 10], parseDataTargetSize := ⟨1024, Content.endLine_word⟩ }

theorem sizeLine_nextSize (settings : Settings) : SizeLine (nextSize settings) where
  mode := rfl
  delimiter := rfl
  target := by
    change 7 ≤ 1024
    decide
  bounded := Nat.le_refl 1024

/-- The stream of a container is read to its end, with its first chunk as the content. -/
theorem completes_coded {chunks : List BinaryContainerChunk} (each : ∀ chunk ∈ chunks, chunk.size ≤ 65536)
    (nonempty : ∀ chunk ∈ chunks, chunk.size ≠ 0) {settings : Settings} (line : SizeLine settings) :
    ∃ n ≤ 4, Completes Content.protocol n ⟨.procModeChunkSize, []⟩ settings (coded chunks)
      (.finished, ⟨.procModeChunkSize, content (chunks.take 1)⟩) := by
  have final : ∀ {settings : Settings} (out rest : Bytes), SizeLine settings →
      Completes Content.protocol 1 ⟨.procModeChunkSize, out⟩ settings ([48, 13, 10] ++ rest)
        (.finished, ⟨.procModeChunkSize, out⟩) := by
    intro settings out rest line
    have element := line.firstElement (Nat.zero_le _) rest
    have stops : Content.protocol.read ⟨.procModeChunkSize, out⟩ settings (.element (hexadecimal 0) none) =
        (.finished, ⟨none, ⟨.procModeChunkSize, out⟩⟩) := rfl
    exact .last line.small element stops (by simp)
  cases chunks with
  | nil => exact ⟨1, by decide, final [] [13, 10] line⟩
  | cons chunk rest =>
    rw [List.forall_mem_cons] at each nonempty
    obtain ⟨small, -⟩ := each
    obtain ⟨some, -⟩ := nonempty
    have filled : chunk.data ≠ [] := List.ne_nil_of_length_pos (Nat.pos_of_ne_zero some)
    have word : chunk.size % 2 ^ 64 = chunk.size := Nat.mod_eq_of_lt (by omega)
    let data := exactly settings ⟨chunk.size % 2 ^ 64, Nat.mod_lt _ (by decide)⟩
    let mark := exactly data ⟨2, by decide⟩
    have number : Content.protocol.read ⟨.procModeChunkSize, []⟩ settings (.element (hexadecimal chunk.size) none) =
        (.open, ⟨Option.some (.new data), ⟨.procModeChunkData, []⟩⟩) := by
      simp only [Protocol.read, Content.protocol, Content.parse, Presented.parsedBuffer,
        parseHttpChunkSize_hexadecimal small]
      rw [if_neg (by omega), if_pos (by omega)]
      rfl
    have smallData : data.Small := small_exactly (by dsimp only; omega) (by dsimp only; omega)
    have smallMark : mark.Small := small_exactly (by decide) (by decide)
    have size : Settings.firstElement settings _ = _ :=
      line.firstElement small (chunk.data ++ ([13, 10] ++ ([48, 13, 10] ++ [13, 10])))
    have body : data.firstElement _ = _ := firstElement_exactly filled word ([13, 10] ++ ([48, 13, 10] ++ [13, 10]))
    have crlf : mark.firstElement ([13, 10] ++ ([48, 13, 10] ++ [13, 10])) = _ :=
      firstElement_exactly (by simp) rfl ([48, 13, 10] ++ [13, 10])
    have ends := final chunk.data [13, 10] (sizeLine_nextSize mark)
    have one : content ((chunk :: rest).take 1) = chunk.data := by simp [content]
    rw [one]
    refine ⟨4, Nat.le_refl 4, ?_⟩
    have stream : coded (chunk :: rest) =
        hexadecimal chunk.size ++ [13, 10] ++ (chunk.data ++ ([13, 10] ++ ([48, 13, 10] ++ [13, 10]))) := by
      simp [coded]
    rw [stream]
    apply Completes.next line.small size number
    rw [List.drop_left' (by simp)]
    have carried : Content.protocol.read ⟨.procModeChunkData, []⟩ data (.element chunk.data none) =
        (.open, ⟨Option.some (.new mark), ⟨.procModeChunkCRLF, chunk.data⟩⟩) := rfl
    apply Completes.next smallData body carried
    rw [List.drop_left' rfl]
    have marked : Content.protocol.read ⟨.procModeChunkCRLF, chunk.data⟩ mark (.element [13, 10] none) =
        (.open, ⟨Option.some (.new (nextSize mark)), ⟨.procModeChunkSize, chunk.data⟩⟩) := rfl
    apply Completes.next smallMark crlf marked
    rw [List.drop_left' rfl]
    exact ends

/-- However it is cut, the first chunk is what is read. -/
theorem writeAll_streamContent {container : BChunks} (whole : Whole container) {writes : List Bytes}
    (filled : ∀ buf ∈ writes, buf ≠ [])
    (flat : writes.flatten = streamContent .transmitModeChunks container) :
    (Content.protocol.writeAll Content.chunksParser writes).1 = .finished ∧
      (Content.protocol.writeAll Content.chunksParser writes).2.user.outStream =
        content (container.chunksVector.take 1) := by
  have each := whole.sized.each
  rw [whole.limits] at each
  let settings : Settings :=
    { Settings.new.setParseMode .delimiter with parseDelimiter := [13, 10], parseDataTargetSize := ⟨64, by decide⟩ }
  have line : SizeLine settings := ⟨rfl, rfl, by decide, by decide⟩
  have holds : Holds (.new settings) settings [] := holds_new (by trivial)
  obtain ⟨n, few, completes⟩ := completes_coded each whole.nonempty line
  rw [← streamContent_whole whole, ← flat] at completes
  have turns : Content.protocol.maxTTL = 4096 := rfl
  have read := Prod.ext_iff.mp (writeAll_completes (by omega) holds filled completes)
  exact ⟨read.1, congrArg Content.outStream read.2⟩

theorem not_roundTrips_of_several {container : BChunks} (whole : Whole container)
    (several : 1 < container.chunksVector.length) : ¬RoundTrips container := by
  intro roundTrips
  have some : streamContent .transmitModeChunks container ≠ [] := by
    rw [streamContent_whole whole]
    cases container.chunksVector <;> simp [coded]
  have filled : ∀ buf ∈ [streamContent .transmitModeChunks container], buf ≠ [] := List.forall_mem_singleton.mpr some
  obtain ⟨-, same⟩ := roundTrips _ filled List.flatten_singleton
  rw [(writeAll_streamContent whole filled List.flatten_singleton).2] at same
  -- what comes behind the first chunk is not empty
  have more := BChunks.length_le_of_nonempty fun chunk member =>
    whole.nonempty chunk (List.mem_of_mem_drop (i := 1) member)
  have length := congrArg List.length same
  conv at length =>
    rhs
    rw [← List.take_append_drop 1 container.chunksVector]
  rw [content_append, List.length_append, length_content, length_content] at length
  rw [List.length_drop] at more
  omega

/-- A container comes back if and only if it holds its body in at most one chunk. -/
theorem roundTrips_iff (pieces : List Bytes) :
    RoundTrips (held pieces) ↔ (held pieces).chunksVector.length ≤ 1 := by
  have whole := whole_held pieces
  constructor
  · intro roundTrips
    by_contra several
    exact not_roundTrips_of_several whole (Nat.not_le.mp several) roundTrips
  · intro one writes filled flat
    obtain ⟨finished, same⟩ := writeAll_streamContent whole filled flat
    rw [List.take_of_length_le one] at same
    exact ⟨finished, same⟩

/-- Two chunks of one byte. -/
theorem roundTrips_fails : ¬∀ pieces, RoundTrips (held pieces) := by
  have two : (held [[65], [66]]).chunksVector.length = 2 := by decide
  intro all
  exact not_roundTrips_of_several (whole_held _) (two ▸ Nat.lt_succ_self 1) (all [[65], [66]])

end Mantids.HTTP
