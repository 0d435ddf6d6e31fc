import Mantids.Memory.Chunk

/-! The URL coding of streams (`streamencoder_url.cpp`, `streamdecoder_url.cpp`). -/

set_option autoImplicit false

namespace Mantids.HTTP

open Memory

namespace Decoders.URL

def isxdigit (byte : UInt8) : Bool :=
  (48 ≤ byte && byte ≤ 57) || (65 ≤ byte && byte ≤ 70) || (97 ≤ byte && byte ≤ 102)

def hexValue (digit : UInt8) : UInt8 :=
  if digit ≤ 57 then digit - 48 else if digit ≤ 70 then digit - 55 else digit - 87

/-- Zero for what is no hexadecimal number. -/
def hexPairToByte (first second : UInt8) : UInt8 :=
  if isxdigit first && isxdigit second then hexValue first * 16 + hexValue second else 0

/-- What is written to the decoder, byte by byte up to the end of the stream, after the `filled`
bytes of an escape. What turns out to be none goes through as it is. -/
def write : (bytes : Bytes) → Bytes → Bytes
  | bytes, [] => bytes
  | [], byte :: rest =>
    if byte = 37 then write [byte] rest else if byte = 43 then 32 :: write [] rest else byte :: write [] rest
  | [mark], byte :: rest =>
    if isxdigit byte then write [mark, byte] rest else mark :: byte :: write [] rest
  | mark :: first :: _, byte :: rest =>
    if isxdigit byte then hexPairToByte first byte :: write [] rest else mark :: first :: byte :: write [] rest

def decodeURLStr (url : Bytes) : Bytes := write [] url

theorem length_write_le (bytes url : Bytes) : (write bytes url).length ≤ bytes.length + url.length := by
  fun_induction write bytes url <;> simp_all <;> omega

theorem length_decodeURLStr_le (url : Bytes) : (decodeURLStr url).length ≤ url.length := by
  have bound := length_write_le [] url
  rwa [List.length_nil, Nat.zero_add] at bound

theorem write_ne_nil {bytes url : Bytes} (some : bytes ≠ [] ∨ url ≠ []) : write bytes url ≠ [] := by
  fun_induction write bytes url <;> simp_all

theorem decodeURLStr_ne_nil {url : Bytes} (some : url ≠ []) : decodeURLStr url ≠ [] := write_ne_nil (.inr some)

/-- A byte that begins no escape and is no space goes through. -/
theorem decodeURLStr_cons {byte : UInt8} (mark : byte ≠ 37) (plus : byte ≠ 43) (rest : Bytes) :
    decodeURLStr (byte :: rest) = byte :: decodeURLStr rest := by
  rw [decodeURLStr, write, if_neg mark, if_neg plus]
  rfl

/-- The bytes, behind so many of an escape, have no escape and no space to decode. -/
def Literal : (held : Nat) → Bytes → Prop
  | _, [] => True
  | 0, byte :: rest => byte ≠ 43 ∧ Literal (if byte = 37 then 1 else 0) rest
  | 1, byte :: rest => Literal (if isxdigit byte then 2 else 0) rest
  | _ + 2, byte :: rest => isxdigit byte = false ∧ Literal 0 rest

instance Literal.decidable : (held : Nat) → (url : Bytes) → Decidable (Literal held url)
  | _, [] => isTrue trivial
  | 0, byte :: rest =>
    have := Literal.decidable (if byte = 37 then 1 else 0) rest
    inferInstanceAs (Decidable (_ ∧ _))
  | 1, byte :: rest => Literal.decidable (if isxdigit byte then 2 else 0) rest
  | _ + 2, _ :: rest =>
    have := Literal.decidable 0 rest
    inferInstanceAs (Decidable (_ ∧ _))

theorem write_eq_self_iff {bytes url : Bytes} (few : bytes.length ≤ 2) :
    write bytes url = bytes ++ url ↔ Literal bytes.length url := by
  fun_induction write bytes url with
  | case1 bytes => simp [Literal]
  | case2 rest ih => simpa [Literal] using ih
  | case3 => simp [Literal]
  | case4 byte rest mark plus ih => simpa [Literal, mark, plus] using ih
  | case5 mark byte rest digit ih =>
    simp only [List.length_singleton, Literal, digit, if_true]
    exact ih (Nat.le_refl 2)
  | case6 mark byte rest other ih => simpa [Literal, other] using ih
  | case7 mark first tail byte rest digit ih =>
    -- an escape is shorter when it is decoded
    have shorter := length_write_le [] rest
    simp only [List.length_cons, Literal, digit, Bool.true_eq_false, false_and, iff_false]
    intro same
    have length := congrArg List.length same
    simp only [List.length_cons, List.length_append, List.length_nil] at length shorter
    omega
  | case8 mark first tail byte rest other ih =>
    have single : tail = [] := by
      rw [List.length_cons, List.length_cons] at few
      exact List.length_eq_zero_iff.mp (by omega)
    subst single
    simpa [Literal, other] using ih

theorem literal_of_plain {url : Bytes} (plain : ∀ byte ∈ url, byte ≠ 37 ∧ byte ≠ 43) : Literal 0 url := by
  induction url with
  | nil => trivial
  | cons byte rest ih =>
    rw [List.forall_mem_cons] at plain
    rw [Literal, if_neg plain.1.1]
    exact ⟨plain.1.2, ih plain.2⟩

theorem decodeURLStr_eq_self_iff {url : Bytes} : decodeURLStr url = url ↔ Literal 0 url :=
  write_eq_self_iff (Nat.zero_le 2)

end Decoders.URL

namespace Encoders.URL

def shouldEncodeThisByte (byte : UInt8) : Bool :=
  !((65 ≤ byte && byte ≤ 90) || (97 ≤ byte && byte ≤ 122) || (48 ≤ byte && byte ≤ 57))

def hexDigit (value : UInt8) : UInt8 := if value < 10 then value + 48 else value + 55

/-- `%02X` for what is no letter and no digit. -/
def encodeByte (byte : UInt8) : Bytes :=
  if shouldEncodeThisByte byte then [37, hexDigit (byte / 16), hexDigit (byte % 16)] else [byte]

def encodeURLStr (url : Bytes) : Bytes := url.flatMap encodeByte

/-- A container that is streamed to the encoder goes there chunk by chunk; what the encoder reports
as written is the length of the code, and where that is not the length of the chunk the copy ends. -/
def streamChunks : List Bytes → Bytes
  | [] => []
  | chunk :: rest =>
    encodeURLStr chunk ++ if (encodeURLStr chunk).length = chunk.length then streamChunks rest else []

/-- The bytes of a code. -/
def isCode (byte : UInt8) : Bool := byte = 37 || !shouldEncodeThisByte byte

theorem encodeByte_plain {byte : UInt8} (plain : shouldEncodeThisByte byte = false) : encodeByte byte = [byte] := by
  rw [encodeByte, plain]
  rfl

theorem forall_uint8 {p : UInt8 → Prop} (all : ∀ n : Fin 256, p (UInt8.ofNat n)) (byte : UInt8) : p byte := by
  have one := all byte.toFin
  rwa [show UInt8.ofNat byte.toFin = byte from UInt8.ofNat_toNat] at one

theorem isCode_encodeByte (byte : UInt8) : ∀ code ∈ encodeByte byte, isCode code = true := by
  revert byte
  apply forall_uint8
  decide +kernel

theorem isCode_encodeURLStr (url : Bytes) : ∀ code ∈ encodeURLStr url, isCode code = true := by
  intro code member
  obtain ⟨byte, _, inside⟩ := List.mem_flatMap.mp member
  exact isCode_encodeByte byte code inside

theorem write_encodeByte (byte : UInt8) (rest : Bytes) :
    Decoders.URL.write [] (encodeByte byte ++ rest) = byte :: Decoders.URL.write [] rest := by
  have plain : shouldEncodeThisByte byte = false → byte ≠ 37 ∧ byte ≠ 43 := by
    revert byte
    apply forall_uint8
    decide +kernel
  have coded : Decoders.URL.isxdigit (hexDigit (byte / 16)) = true ∧
      Decoders.URL.isxdigit (hexDigit (byte % 16)) = true ∧
      Decoders.URL.hexPairToByte (hexDigit (byte / 16)) (hexDigit (byte % 16)) = byte := by
    revert byte
    apply forall_uint8
    decide +kernel
  unfold encodeByte
  cases encodes : shouldEncodeThisByte byte with
  | true =>
    simp only [if_true, List.cons_append, List.nil_append, Decoders.URL.write, coded]
  | false =>
    obtain ⟨mark, plus⟩ := plain encodes
    simp only [Bool.false_eq_true, if_false, List.cons_append, List.nil_append, Decoders.URL.write, mark, plus]

/-- What is encoded decodes to itself. -/
theorem decode_encode (url : Bytes) : Decoders.URL.decodeURLStr (encodeURLStr url) = url := by
  unfold Decoders.URL.decodeURLStr encodeURLStr
  induction url with
  | nil => rfl
  | cons byte rest ih => rw [List.flatMap_cons, write_encodeByte, ih]

theorem length_encodeByte (byte : UInt8) :
    (encodeByte byte).length = if shouldEncodeThisByte byte then 3 else 1 := by
  unfold encodeByte
  split <;> rfl

theorem length_le_encodeURLStr (url : Bytes) : url.length ≤ (encodeURLStr url).length := by
  induction url with
  | nil => exact Nat.le_refl _
  | cons byte rest ih =>
    have bound := length_encodeByte byte
    rw [encodeURLStr, List.flatMap_cons, List.length_append, List.length_cons]
    change _ ≤ _ + (encodeURLStr rest).length
    split at bound <;> omega

theorem isCode_streamChunks (chunks : List Bytes) : ∀ code ∈ streamChunks chunks, isCode code = true := by
  induction chunks with
  | nil => nofun
  | cons chunk rest ih =>
    intro code member
    rcases List.mem_append.mp member with here | later
    · exact isCode_encodeURLStr chunk code here
    · split at later
      · exact ih code later
      · cases later

/-- The chunks that the copy reaches. -/
def streamed : List Bytes → Bytes
  | [] => []
  | chunk :: rest => chunk ++ if (encodeURLStr chunk).length = chunk.length then streamed rest else []

theorem streamChunks_eq (chunks : List Bytes) : streamChunks chunks = encodeURLStr (streamed chunks) := by
  induction chunks with
  | nil => rfl
  | cons chunk rest ih =>
    rw [streamChunks, streamed, encodeURLStr, encodeURLStr, List.flatMap_append]
    split
    · rw [ih]
      rfl
    · rfl

theorem decode_streamChunks (chunks : List Bytes) :
    Decoders.URL.decodeURLStr (streamChunks chunks) = streamed chunks := by
  rw [streamChunks_eq, decode_encode]

end Encoders.URL

end Mantids.HTTP
