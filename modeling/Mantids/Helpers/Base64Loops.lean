import Mantids.Helpers.Encoders
import Mathlib

/-! The loops of base 64 as they run (`encoders.cpp`), over an array that fills and is emptied, and the obfuscated
form of it. -/

set_option autoImplicit false

namespace Mantids.Helpers.Base64

open Memory Encoders

local instance threeSlots : NeZero 3 := ⟨by decide⟩
local instance fourSlots : NeZero 4 := ⟨by decide⟩

/-! ## Encoding -/

/-- `toBase64` between two bytes. -/
structure Encoding where
  x : Fin 3
  cont3 : Fin 3 → UInt8
  encodedString : Bytes

/-- The four characters of a full array. -/
def Encoding.characters (cont3 : Fin 3 → UInt8) : Fin 4 → UInt8 :=
  fun y => b64Char (cont4 (cont3 0) (cont3 1) (cont3 2) y)

def Encoding.turn (s : Encoding) (byte : UInt8) : Encoding :=
  let cont3 := Function.update s.cont3 s.x byte
  if more : (s.x : Nat) + 1 < 3 then { s with x := ⟨s.x + 1, more⟩, cont3 }
  else { x := 0, cont3, encodedString := s.encodedString ++ (List.finRange 4).map (characters cont3) }

/-- What is left in the array is filled with zeroes, and the text with padding. -/
def Encoding.finish (s : Encoding) : Bytes :=
  if s.x = 0 then s.encodedString
  else
    let cont3 : Fin 3 → UInt8 := fun y => if s.x ≤ y then 0 else s.cont3 y
    s.encodedString ++ ((List.finRange 4).take (s.x + 1)).map (characters cont3) ++ List.replicate (3 - s.x) padding

/-- The array is not initialised. -/
def toBase64 (cont3 : Fin 3 → UInt8) (buf : Bytes) : Bytes :=
  (buf.foldl Encoding.turn ⟨0, cont3, []⟩).finish

/-! ## Decoding -/

/-- The loops of the three decoders between two characters; they differ in what they add the bytes to. -/
structure Decoding (σ : Type) where
  x : Fin 4
  cont4 : Fin 4 → UInt8
  decoded : σ

section
variable {σ : Type} (add : σ → UInt8 → σ)

/-- The bytes of an array of characters. -/
def Decoding.bytes (cont4 : Fin 4 → UInt8) : Fin 3 → UInt8 :=
  cont3 (number (cont4 0)) (number (cont4 1)) (number (cont4 2)) (number (cont4 3))

def Decoding.turn (s : Decoding σ) (char : UInt8) : Decoding σ :=
  let cont4 := Function.update s.cont4 s.x char
  if more : (s.x : Nat) + 1 < 4 then { s with x := ⟨s.x + 1, more⟩, cont4 }
  else
    { x := 0
      cont4 := fun y => number (cont4 y)
      decoded := ((List.finRange 3).map (bytes cont4)).foldl add s.decoded }

/-- Of what is left in the array, a byte less than there are characters. -/
def Decoding.finish (s : Decoding σ) : σ :=
  if s.x = 0 then s.decoded
  else
    let cont4 : Fin 4 → UInt8 := fun y => if s.x ≤ y then 0 else s.cont4 y
    (((List.finRange 3).take (s.x - 1)).map (bytes cont4)).foldl add s.decoded

def decode (cont4 : Fin 4 → UInt8) (decoded : σ) (sB64Buf : Bytes) : σ :=
  ((sB64Buf.takeWhile isBase64).foldl (Decoding.turn add) ⟨0, cont4, decoded⟩).finish add

end

def fromBase64 (cont4 : Fin 4 → UInt8) (sB64Buf : Bytes) : Bytes :=
  decode (fun decodedString byte => decodedString ++ [byte]) cont4 [] sB64Buf

/-- An array with the bytes used of it; without memory there is none. -/
structure XBinContainer where
  data : Option Bytes
  usedSize : Nat

namespace XBinContainer

variable (malloc : Nat → Bool)

def new (len : Nat) : XBinContainer :=
  if len ≠ 0 ∧ malloc len = true then ⟨some (List.replicate len 0), 0⟩ else ⟨none, 0⟩

/-- The operator `+=`. -/
def add (r : XBinContainer) (c : UInt8) : XBinContainer :=
  match r.data with
  | some data => if r.usedSize = data.length then r else ⟨some (data.set r.usedSize c), r.usedSize + 1⟩
  | none => r

def toString (r : XBinContainer) : Bytes := (r.data.getD []).take r.usedSize

end XBinContainer

def fromBase64ToBin (malloc : Nat → Bool) (cont4 : Fin 4 → UInt8) (sB64Buf : Bytes) : XBinContainer :=
  let r := XBinContainer.new malloc sB64Buf.length
  if r.data.isNone then r else decode XBinContainer.add cont4 r sB64Buf

/-- A seeded generator, and the distribution over the bytes. -/
structure Generator (γ : Type) where
  mt19937_64 : UInt64 → γ
  dis : γ → UInt8 × γ

section
variable {γ : Type} (generator : Generator γ)

def obfuscate : Bytes → γ → Bytes
  | [], _ => []
  | byte :: rest, gen => (byte ^^^ (generator.dis gen).1) :: obfuscate rest (generator.dis gen).2

/-- Without memory for the array the text is empty. -/
def toBase64Obf (malloc : Nat → Bool) (cont3 : Fin 3 → UInt8) (buf : Bytes) (seed : UInt64) : Bytes :=
  if malloc buf.length then toBase64 cont3 (obfuscate generator buf (generator.mt19937_64 seed)) else []

def addClear (s : Bytes × γ) (byte : UInt8) : Bytes × γ :=
  (s.1 ++ [byte ^^^ (generator.dis s.2).1], (generator.dis s.2).2)

def fromBase64Obf (cont4 : Fin 4 → UInt8) (sB64Buf : Bytes) (seed : UInt64) : Bytes :=
  (decode (addClear generator) cont4 ([], generator.mt19937_64 seed) sB64Buf).1

end

/-! ## The loops in groups -/

theorem finish_encoding (buf : Bytes) (cont3 : Fin 3 → UInt8) (done : Bytes) :
    (buf.foldl Encoding.turn ⟨0, cont3, done⟩).finish = done ++ Encoders.toBase64 buf := by
  induction buf using Encoders.toBase64.induct generalizing cont3 done with
  | case1 first second third rest ih =>
    simp only [List.foldl_cons]
    have group : ((Encoding.turn ⟨0, cont3, done⟩ first).turn second).turn third =
        ⟨0, Function.update (Function.update (Function.update cont3 0 first) 1 second) 2 third,
          done ++ [b64Char (cont4 first second third 0), b64Char (cont4 first second third 1),
            b64Char (cont4 first second third 2), b64Char (cont4 first second third 3)]⟩ := rfl
    rw [group, ih, Encoders.toBase64, List.append_assoc]
    rfl
  | case2 first second =>
    simp only [List.foldl_cons, List.foldl_nil]
    have group : (Encoding.turn ⟨0, cont3, done⟩ first).turn second =
        ⟨2, Function.update (Function.update cont3 0 first) 1 second, done⟩ := rfl
    rw [group, Encoding.finish, if_neg (show ¬(2 : Fin 3) = 0 by decide), List.append_assoc]
    rfl
  | case3 first =>
    simp only [List.foldl_cons, List.foldl_nil]
    have group : Encoding.turn ⟨0, cont3, done⟩ first = ⟨1, Function.update cont3 0 first, done⟩ := rfl
    rw [group, Encoding.finish, if_neg (show ¬(1 : Fin 3) = 0 by decide), List.append_assoc]
    rfl
  | case4 => exact (List.append_nil done).symm

theorem toBase64_eq (cont3 : Fin 3 → UInt8) (buf : Bytes) : toBase64 cont3 buf = Encoders.toBase64 buf :=
  finish_encoding buf cont3 []

section
variable {σ : Type} (add : σ → UInt8 → σ)

theorem finish_decoding (chars : Bytes) (cont4 : Fin 4 → UInt8) (decoded : σ) :
    (chars.foldl (Decoding.turn add) ⟨0, cont4, decoded⟩).finish add = (fromChars chars).foldl add decoded := by
  induction chars using fromChars.induct generalizing cont4 decoded with
  | case1 first second third fourth rest ih =>
    simp only [List.foldl_cons]
    rw [fromChars]
    exact ih _ _
  | case2 first second third => rfl
  | case3 first second => rfl
  | case4 chars long middle short =>
    rcases chars with _ | ⟨first, _ | ⟨second, _ | ⟨third, _ | ⟨fourth, rest⟩⟩⟩⟩
    · rfl
    · rfl
    · exact (short first second rfl).elim
    · exact (middle first second third rfl).elim
    · exact (long first second third fourth rest rfl).elim

/-- Whatever the bytes are added to, they are those of the text. -/
theorem decode_eq (cont4 : Fin 4 → UInt8) (decoded : σ) (sB64Buf : Bytes) :
    decode add cont4 decoded sB64Buf = (Encoders.fromBase64 sB64Buf).foldl add decoded :=
  finish_decoding add _ cont4 decoded

end

/-! ## Adding to an array -/

namespace XBinContainer

/-- The bytes fit into what is left of the array. -/
theorem foldl_add (bytes done after : Bytes) (room : bytes.length ≤ after.length) :
    bytes.foldl add ⟨some (done ++ after), done.length⟩ =
      ⟨some (done ++ bytes ++ after.drop bytes.length), (done ++ bytes).length⟩ := by
  induction bytes generalizing done after with
  | nil => simp
  | cons byte rest ih =>
    cases after with
    | nil => exact absurd room (by simp)
    | cons old after =>
      rw [List.length_cons, List.length_cons] at room
      have inside : ¬done.length = (done ++ old :: after).length := by simp
      have written : add ⟨some (done ++ old :: after), done.length⟩ byte =
          ⟨some (done ++ [byte] ++ after), (done ++ [byte]).length⟩ := by
        rw [add]
        dsimp only
        rw [if_neg inside, List.set_append_right _ _ (Nat.le_refl _), Nat.sub_self, List.set_cons_zero, List.append_assoc,
          List.length_append]
        rfl
      rw [List.foldl_cons, written, ih (done ++ [byte]) after (by omega)]
      simp

theorem toString_foldl_add {bytes : Bytes} {len : Nat} (room : bytes.length ≤ len) :
    (bytes.foldl add ⟨some (List.replicate len 0), 0⟩).toString = bytes := by
  have added := foldl_add bytes [] (List.replicate len 0) (by rw [List.length_replicate]; exact room)
  rw [List.nil_append, List.nil_append] at added
  rw [show (0 : Nat) = ([] : Bytes).length from rfl, added, toString, Option.getD_some, List.take_left]

end XBinContainer

/-! ## Clearing what was obfuscated -/

section
variable {γ : Type} (generator : Generator γ)

theorem length_obfuscate (buf : Bytes) (gen : γ) : (obfuscate generator buf gen).length = buf.length := by
  induction buf generalizing gen with
  | nil => rfl
  | cons byte rest ih => rw [obfuscate, List.length_cons, List.length_cons, ih]

theorem foldl_addClear (buf : Bytes) (gen : γ) (done : Bytes) :
    ((obfuscate generator buf gen).foldl (addClear generator) (done, gen)).1 = done ++ buf := by
  induction buf generalizing gen done with
  | nil => exact (List.append_nil done).symm
  | cons byte rest ih =>
    rw [obfuscate, List.foldl_cons, addClear]
    dsimp only
    rw [ih, UInt8.xor_assoc, UInt8.xor_self, UInt8.xor_zero, List.append_assoc, List.singleton_append]

end

/-! ## What is put out -/

/-- Characters of the alphabet in fours, the last ones padded. -/
structure Standard (buf text : Bytes) : Prop where
  padded : ∃ chars, text = chars ++ List.replicate ((3 - buf.length % 3) % 3) padding ∧ ∀ char ∈ chars, char ∈ b64Chars
  length : text.length = 4 * ((buf.length + 2) / 3)

theorem b64Char_mem {value : UInt8} (small : value.toNat < 64) : b64Char value ∈ b64Chars := by
  revert small
  revert value
  apply forall_byte
  decide +kernel

theorem cont4_mem (first second third : UInt8) (position : Fin 4) :
    b64Char (cont4 first second third position) ∈ b64Chars := b64Char_mem (cont4_lt first second third position)

theorem standard (buf : Bytes) : Standard buf (Encoders.toBase64 buf) := by
  induction buf using Encoders.toBase64.induct with
  | case1 first second third rest ih =>
    obtain ⟨chars, text, alphabet⟩ := ih.padded
    have more : (rest.length + 3) % 3 = rest.length % 3 := Nat.add_mod_right _ _
    constructor
    case padded =>
      refine ⟨b64Char (cont4 first second third 0) :: b64Char (cont4 first second third 1) ::
        b64Char (cont4 first second third 2) :: b64Char (cont4 first second third 3) :: chars, ?_, ?_⟩
      · rw [Encoders.toBase64, text, List.length_cons, List.length_cons, List.length_cons, more]
        rfl
      · intro char member
        simp only [List.mem_cons] at member
        rcases member with rfl | rfl | rfl | rfl | later
        · exact cont4_mem ..
        · exact cont4_mem ..
        · exact cont4_mem ..
        · exact cont4_mem ..
        · exact alphabet char later
    case length =>
      have length := ih.length
      simp only [Encoders.toBase64, List.length_cons]
      omega
  | case2 first second =>
    constructor
    case padded =>
      refine ⟨[b64Char (cont4 first second 0 0), b64Char (cont4 first second 0 1), b64Char (cont4 first second 0 2)],
        rfl, ?_⟩
      intro char member
      simp only [List.mem_cons, List.not_mem_nil, or_false] at member
      rcases member with rfl | rfl | rfl
      · exact cont4_mem ..
      · exact cont4_mem ..
      · exact cont4_mem ..
    case length => simp [Encoders.toBase64]
  | case3 first =>
    constructor
    case padded =>
      refine ⟨[b64Char (cont4 first 0 0 0), b64Char (cont4 first 0 0 1)], rfl, ?_⟩
      intro char member
      simp only [List.mem_cons, List.not_mem_nil, or_false] at member
      rcases member with rfl | rfl
      · exact cont4_mem ..
      · exact cont4_mem ..
    case length => simp [Encoders.toBase64]
  | case4 => exact ⟨⟨[], rfl, List.forall_mem_nil _⟩, rfl⟩

/-! ## There and back -/

section
variable {γ : Type} (generator : Generator γ) (malloc : Nat → Bool) (array3 : Fin 3 → UInt8) (array4 : Fin 4 → UInt8)

/-- Whatever the arrays hold at first, and whatever the generator puts out. -/
structure RoundTrips (s : Bytes) (seed : UInt64) : Prop where
  fromBase64 : fromBase64 array4 (toBase64 array3 s) = s
  fromBase64ToBin : (fromBase64ToBin malloc array4 (toBase64 array3 s)).toString = s
  fromBase64Obf : fromBase64Obf generator array4 (toBase64Obf generator malloc array3 s seed) seed = s
  standard : Standard s (toBase64 array3 s)

variable {malloc}

/-- The bytes for which memory is asked: as many as the text has, and as many as its encoding. -/
theorem base64_round_trip (s : Bytes) (seed : UInt64) (plain : malloc s.length = true)
    (encoded : malloc (toBase64 array3 s).length = true) : RoundTrips generator malloc array3 array4 s seed := by
  have decoded := fromBase64_toBase64 s
  have size := (standard s).length
  rw [toBase64_eq] at encoded
  constructor
  case fromBase64 =>
    rw [Base64.fromBase64, decode_eq, toBase64_eq, decoded]
    rw [List.foldl_append_eq_append, List.nil_append, ← List.flatMap_def, List.flatMap_singleton']
  case fromBase64ToBin =>
    by_cases none : (Encoders.toBase64 s).length = 0
    · have empty : s = [] := List.length_eq_zero_iff.mp (by omega)
      rw [toBase64_eq, empty]
      rfl
    · have some : XBinContainer.new malloc (Encoders.toBase64 s).length =
          ⟨some (List.replicate (Encoders.toBase64 s).length 0), 0⟩ := if_pos ⟨none, encoded⟩
      rw [toBase64_eq, Base64.fromBase64ToBin, some, if_neg (by simp), decode_eq, decoded]
      exact XBinContainer.toString_foldl_add (by omega)
  case fromBase64Obf =>
    rw [Base64.fromBase64Obf, toBase64Obf, if_pos plain, toBase64_eq, decode_eq, fromBase64_toBase64, foldl_addClear]
    rfl
  case standard =>
    rw [toBase64_eq]
    exact standard s

end

/-- A generator that counts. -/
theorem base64_round_trip_man :
    RoundTrips (γ := UInt64) ⟨id, fun gen => (gen.toUInt8, gen + 1)⟩ (fun _ => true) (fun _ => 0) (fun _ => 0)
      [77, 97, 110, 33] 7 :=
  base64_round_trip _ _ _ _ _ rfl rfl

end Mantids.Helpers.Base64
