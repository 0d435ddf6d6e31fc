import Mantids.Memory.Chunk

/-! Base 64 (`encoders.cpp`): three bytes as four characters, and back. -/

set_option autoImplicit false

namespace Mantids.Helpers.Encoders

open Memory

def b64Chars : Bytes :=
  "ABCDEFGHIJKLMNOPQRSTUVWXYZabcdefghijklmnopqrstuvwxyz0123456789+/".toList.map fun letter => UInt8.ofNat letter.toNat

abbrev padding : UInt8 := 61

/-! ## Encoding -/

section
variable (first second third : UInt8)

/-- The four numbers of three bytes. -/
def cont4 : Fin 4 → UInt8
  | 0 => (first &&& 0xfc) >>> 2
  | 1 => ((first &&& 0x03) <<< 4) + ((second &&& 0xf0) >>> 4)
  | 2 => ((second &&& 0x0f) <<< 2) + ((third &&& 0xc0) >>> 6)
  | 3 => third &&& 0x3f

/-- The character of a number, which is below 64. -/
def b64Char (number : UInt8) : UInt8 := b64Chars.getD number.toNat 0

end

/-- What is missing of the last three bytes counts as zero and is padded. -/
def toBase64 : Bytes → Bytes
  | first :: second :: third :: rest =>
    b64Char (cont4 first second third 0) :: b64Char (cont4 first second third 1) ::
      b64Char (cont4 first second third 2) :: b64Char (cont4 first second third 3) :: toBase64 rest
  | [first, second] =>
    [b64Char (cont4 first second 0 0), b64Char (cont4 first second 0 1), b64Char (cont4 first second 0 2), padding]
  | [first] => [b64Char (cont4 first 0 0 0), b64Char (cont4 first 0 0 1), padding, padding]
  | [] => []

/-! ## Decoding -/

/-- `isalnum` in the classic locale. -/
def isalnum (byte : UInt8) : Bool :=
  48 ≤ byte && byte ≤ 57 || 65 ≤ byte && byte ≤ 90 || 97 ≤ byte && byte ≤ 122

def isBase64 (byte : UInt8) : Bool := byte ≠ padding && (isalnum byte || byte = 47 || byte = 43)

/-- `b64Chars.find`, whose `npos` is cut to a byte. -/
def number (char : UInt8) : UInt8 :=
  match b64Chars.findIdx? (· = char) with
  | some index => UInt8.ofNat index
  | none => 255

/-- The three bytes of four numbers. -/
def cont3 (first second third fourth : UInt8) : Fin 3 → UInt8
  | 0 => (first <<< 2) + ((second &&& 0x30) >>> 4)
  | 1 => ((second &&& 0xf) <<< 4) + ((third &&& 0x3c) >>> 2)
  | 2 => ((third &&& 0x3) <<< 6) + fourth

/-- The characters in fours; of the last ones, a byte less than there are. -/
def fromChars : Bytes → Bytes
  | first :: second :: third :: fourth :: rest =>
    let bytes := cont3 (number first) (number second) (number third) (number fourth)
    bytes 0 :: bytes 1 :: bytes 2 :: fromChars rest
  | [first, second, third] =>
    let bytes := cont3 (number first) (number second) (number third) (number 0)
    [bytes 0, bytes 1]
  | [first, second] => [cont3 (number first) (number second) (number 0) (number 0) 0]
  | _ => []

/-- Decoding ends with the first character that is not of the alphabet. -/
def fromBase64 (sB64Buf : Bytes) : Bytes := fromChars (sB64Buf.takeWhile isBase64)

/-! ## The round trip -/

theorem forall_byte {p : UInt8 → Prop} (each : ∀ value : Fin 256, p (UInt8.ofNat value)) (byte : UInt8) : p byte := by
  have here := each ⟨byte.toNat, byte.toNat_lt⟩
  rwa [UInt8.ofNat_toNat] at here

/-- The parts that the encoder takes of a byte. -/
theorem toNat_parts (byte : UInt8) :
    ((byte &&& 0xfc) >>> 2).toNat = byte.toNat / 4 ∧ ((byte &&& 0x03) <<< 4).toNat = byte.toNat % 4 * 16 ∧
      ((byte &&& 0xf0) >>> 4).toNat = byte.toNat / 16 ∧ ((byte &&& 0x0f) <<< 2).toNat = byte.toNat % 16 * 4 ∧
      ((byte &&& 0xc0) >>> 6).toNat = byte.toNat / 64 ∧ (byte &&& 0x3f).toNat = byte.toNat % 64 := by
  revert byte
  apply forall_byte
  decide +kernel

/-- The parts that the decoder takes of a number. -/
theorem toNat_pieces (byte : UInt8) :
    (byte <<< 2).toNat = byte.toNat * 4 % 256 ∧ ((byte &&& 0x30) >>> 4).toNat = byte.toNat / 16 % 4 ∧
      ((byte &&& 0xf) <<< 4).toNat = byte.toNat % 16 * 16 ∧ ((byte &&& 0x3c) >>> 2).toNat = byte.toNat / 4 % 16 ∧
      ((byte &&& 0x3) <<< 6).toNat = byte.toNat % 4 * 64 := by
  revert byte
  apply forall_byte
  decide +kernel

section
variable (first second third : UInt8)

theorem toNat_cont4 :
    (cont4 first second third 0).toNat = first.toNat / 4 ∧
      (cont4 first second third 1).toNat = first.toNat % 4 * 16 + second.toNat / 16 ∧
      (cont4 first second third 2).toNat = second.toNat % 16 * 4 + third.toNat / 64 ∧
      (cont4 first second third 3).toNat = third.toNat % 64 := by
  have low := second.toNat_lt
  have last := third.toNat_lt
  obtain ⟨high, two, -, -, -, -⟩ := toNat_parts first
  obtain ⟨-, -, four, rest, -, -⟩ := toNat_parts second
  obtain ⟨-, -, -, -, top, six⟩ := toNat_parts third
  refine ⟨high, ?_, ?_, six⟩
  · change (_ + _ : UInt8).toNat = _
    rw [UInt8.toNat_add, two, four]
    omega
  · change (_ + _ : UInt8).toNat = _
    rw [UInt8.toNat_add, rest, top]
    omega

theorem cont4_lt (position : Fin 4) : (cont4 first second third position).toNat < 64 := by
  have bounds := And.intro first.toNat_lt (And.intro second.toNat_lt third.toNat_lt)
  obtain ⟨zero, one, two, three⟩ := toNat_cont4 first second third
  match position with
  | 0 => omega
  | 1 => omega
  | 2 => omega
  | 3 => omega

variable {first second third}

theorem toNat_cont3 (fourth : UInt8) :
    (cont3 first second third fourth 0).toNat = (first.toNat * 4 % 256 + second.toNat / 16 % 4) % 256 ∧
      (cont3 first second third fourth 1).toNat = (second.toNat % 16 * 16 + third.toNat / 4 % 16) % 256 ∧
      (cont3 first second third fourth 2).toNat = (third.toNat % 4 * 64 + fourth.toNat) % 256 := by
  obtain ⟨whole, -, -, -, -⟩ := toNat_pieces first
  obtain ⟨-, top, low, -, -⟩ := toNat_pieces second
  obtain ⟨-, -, -, middle, two⟩ := toNat_pieces third
  refine ⟨?_, ?_, ?_⟩
  · change (_ + _ : UInt8).toNat = _
    rw [UInt8.toNat_add, whole, top]
  · change (_ + _ : UInt8).toNat = _
    rw [UInt8.toNat_add, low, middle]
  · change (_ + _ : UInt8).toNat = _
    rw [UInt8.toNat_add, two]

/-- Of the numbers of three bytes, the third and the fourth may be other ones where less is asked for. -/
theorem cont3_cont4 (other last : UInt8) :
    cont3 (cont4 first second third 0) (cont4 first second third 1) other last 0 = first ∧
      cont3 (cont4 first second third 0) (cont4 first second third 1) (cont4 first second third 2) last 1 = second ∧
      cont3 (cont4 first second third 0) (cont4 first second third 1) (cont4 first second third 2)
        (cont4 first second third 3) 2 = third := by
  have bounds := And.intro first.toNat_lt (And.intro second.toNat_lt third.toNat_lt)
  obtain ⟨zero, one, two, three⟩ := toNat_cont4 first second third
  refine ⟨?_, ?_, ?_⟩
  · rw [← UInt8.toNat_inj, (toNat_cont3 last).1, zero, one]
    omega
  · rw [← UInt8.toNat_inj, (toNat_cont3 last).2.1, one, two]
    omega
  · rw [← UInt8.toNat_inj, (toNat_cont3 _).2.2, two, three]
    omega

end

theorem number_b64Char {value : UInt8} (small : value.toNat < 64) : number (b64Char value) = value := by
  revert small
  revert value
  apply forall_byte
  decide +kernel

theorem isBase64_b64Char {value : UInt8} (small : value.toNat < 64) : isBase64 (b64Char value) = true := by
  revert small
  revert value
  apply forall_byte
  decide +kernel

@[simp] theorem number_cont4 (first second third : UInt8) (position : Fin 4) :
    number (b64Char (cont4 first second third position)) = cont4 first second third position :=
  number_b64Char (cont4_lt first second third position)

@[simp] theorem isBase64_cont4 (first second third : UInt8) (position : Fin 4) :
    isBase64 (b64Char (cont4 first second third position)) = true :=
  isBase64_b64Char (cont4_lt first second third position)

theorem fromBase64_toBase64 (buf : Bytes) : fromBase64 (toBase64 buf) = buf := by
  have noPadding : isBase64 padding = false := by decide
  unfold fromBase64
  induction buf using toBase64.induct with
  | case1 first second third rest ih =>
    obtain ⟨one, two, three⟩ := @cont3_cont4 first second third (cont4 first second third 2) (cont4 first second third 3)
    simp only [toBase64, List.takeWhile_cons, isBase64_cont4, if_true, fromChars, number_cont4, one, two, three, ih]
  | case2 first second =>
    obtain ⟨one, two, -⟩ := @cont3_cont4 first second 0 (cont4 first second 0 2) (number 0)
    simp [toBase64, noPadding, fromChars, one, two]
  | case3 first =>
    obtain ⟨one, -, -⟩ := @cont3_cont4 first 0 0 (number 0) (number 0)
    simp [toBase64, noPadding, fromChars, one]
  | case4 => rfl

end Mantids.Helpers.Encoders
