import Mantids.Protocols.CookieAgreement
import Mantids.Protocols.RequestRoundTrip

/-! The values of security headers as they are written and read (`hdr_cachecontrol.cpp`, `hdr_sec_hsts.cpp`,
`hdr_sec_xframeopts.cpp`, `hdr_sec_xssprotection.cpp`). -/

set_option autoImplicit false

namespace Mantids.HTTP.Headers

open Memory Library MIME

/-! ## Texts -/

/-- `boost::to_lower_copy` -/
def toLower (text : Bytes) : Bytes := text.map fun byte => if 65 ≤ byte && byte ≤ 90 then byte + 32 else byte

def iequals (text other : Bytes) : Bool := toUpper text = toUpper other

def istartsWith (text front : Bytes) : Bool := toUpper front <+: toUpper text

def startsWith (text front : Bytes) : Bool := front <+: text

/-- A blank, next to another separator. -/
def anyOf (separator : UInt8) (byte : UInt8) : Bool := byte = separator || byte = 32

/-- `strtoul` into 32 bits. -/
def toUInt32 (text : Bytes) : UInt32 := UInt32.ofNat (strtoul text)

/-- `std::to_string` -/
def toString (number : UInt32) : Bytes := MIME.decimal number.toNat

/-! ## Cache control -/

structure CacheControl where
  optionNoStore : Bool
  optionNoCache : Bool
  optionMustRevalidate : Bool
  optionPrivate : Bool
  optionPublic : Bool
  optionImmutable : Bool
  optionNoTransform : Bool
  optionProxyRevalidate : Bool
  maxAge : UInt32
  sMaxAge : UInt32
  deriving DecidableEq

namespace CacheControl

def setDefaults : CacheControl := ⟨true, false, false, false, false, false, false, false, 0, 0⟩

/-- `r += (r.empty()?"":",") + text`, where the option is on. -/
def put (option : Bool) (text r : Bytes) : Bytes := if option then r ++ (if r = [] then [] else ascii ",") ++ text else r

def toString (v : CacheControl) : Bytes :=
  let r := put v.optionMustRevalidate (ascii "must-revalidate") []
  let r := put v.optionProxyRevalidate (ascii "proxy-revalidate") r
  let r := put v.optionNoTransform (ascii "no-transform") r
  let r := put v.optionImmutable (ascii "immutable") r
  let r := put v.optionNoStore (ascii "no-store") r
  let r := put v.optionNoCache (ascii "no-cache") r
  let r := put v.optionPrivate (ascii "private") r
  let r := put v.optionPublic (ascii "public") r
  let r := put (v.maxAge != 0) (ascii "max-age=" ++ Headers.toString v.maxAge) r
  put (v.sMaxAge != 0) (ascii "s-maxage=" ++ Headers.toString v.sMaxAge) r

def readParam (v : CacheControl) (param : Bytes) : CacheControl :=
  let paramLower := toLower param
  if paramLower = ascii "no-store" then { v with optionNoStore := true }
  else if paramLower = ascii "no-cache" then { v with optionNoCache := true }
  else if paramLower = ascii "private" then { v with optionPrivate := true }
  else if paramLower = ascii "public" then { v with optionPublic := true }
  else if paramLower = ascii "immutable" then { v with optionImmutable := true }
  else if paramLower = ascii "proxy-revalidate" then { v with optionProxyRevalidate := true }
  else if paramLower = ascii "no-transform" then { v with optionNoTransform := true }
  else if startsWith paramLower (ascii "max-age=") then { v with maxAge := toUInt32 (paramLower.drop 8) }
  else if startsWith paramLower (ascii "s-maxage=") then { v with sMaxAge := toUInt32 (paramLower.drop 9) }
  else v

/-- What the object was before does not matter. -/
def fromString (_ : CacheControl) (str : Bytes) : CacheControl :=
  (split (anyOf 44) str).foldl readParam setDefaults

end CacheControl

/-! ## Strict transport security -/

structure HSTS where
  activated : Bool
  preload : Bool
  includeSubDomains : Bool
  maxAge : UInt32
  deriving DecidableEq

namespace HSTS

def setDefaults : HSTS := ⟨false, false, false, 0⟩

def toValue (v : HSTS) : Bytes :=
  if v.activated then
    let r := if v.maxAge != 0 then ascii "; max-age=" ++ Headers.toString v.maxAge else []
    let r := if v.includeSubDomains then r ++ ascii "; includeSubDomains" else r
    let r := if v.preload then r ++ ascii "; preload" else r
    if 2 < r.length then r.drop 2 else []
  else []

/-- The number is looked for from the front of the part on. -/
def readPart (v : HSTS) (part : Bytes) : HSTS :=
  if iequals part (ascii "preload") then { v with preload := true }
  else if iequals part (ascii "includeSubDomains") then { v with includeSubDomains := true }
  else if istartsWith part (ascii "max-age=") then { v with maxAge := toUInt32 (part.drop 0) }
  else v

def fromValue (_ : HSTS) (sValue : Bytes) : HSTS :=
  if sValue = [] then setDefaults else (split (anyOf 59) sValue).foldl readPart { setDefaults with activated := true }

end HSTS

/-! ## Frames -/

inductive EOptsValues where
  | none
  | deny
  | sameOrigin
  | allowFrom
  deriving DecidableEq

structure XFrameOpts where
  value : EOptsValues
  fromURL : Bytes
  deriving DecidableEq

namespace XFrameOpts

def setDefaults : XFrameOpts := ⟨.deny, []⟩

def toValue (v : XFrameOpts) : Bytes :=
  match v.value with
  | .deny => ascii "DENY"
  | .allowFrom => ascii "ALLOW-FROM " ++ v.fromURL
  | .sameOrigin => ascii "SAMEORIGIN"
  | .none => []

/-- Whether the value was understood, and the object. -/
def fromValue (_ : XFrameOpts) (sValue : Bytes) : Bool × XFrameOpts :=
  match split (· = 32) sValue with
  | [] => (false, setDefaults)
  | first :: more =>
    if iequals first (ascii "DENY") then (true, { setDefaults with value := .deny })
    else if iequals first (ascii "SAMEORIGIN") then (true, { setDefaults with value := .deny })
    else
      match more with
      | second :: _ =>
        if iequals first (ascii "ALLOW-FROM") then (true, { setDefaults with value := .deny, fromURL := second })
        else (false, { setDefaults with value := .deny })
      | [] => (false, { setDefaults with value := .deny })

end XFrameOpts

/-! ## Scripts of other sites -/

structure XSSProtection where
  activated : Bool
  blocking : Bool
  reportURL : Bytes
  deriving DecidableEq

namespace XSSProtection

def setDefaults : XSSProtection := ⟨true, true, []⟩

def toValue (v : XSSProtection) : Bytes :=
  if !v.activated then ascii "0"
  else
    let r := ascii "1"
    let r := if v.blocking then r ++ ascii "; mode=block" else r
    if v.reportURL ≠ [] then r ++ (ascii "; report=" ++ v.reportURL) else r

def readPart (v : XSSProtection) (part : Bytes) : XSSProtection :=
  if iequals part (ascii "mode=block") then { v with blocking := true }
  else if istartsWith part (ascii "report=") then { v with reportURL := part.drop 7 }
  else v

def fromValue (_ : XSSProtection) (sValue : Bytes) : XSSProtection :=
  match split (anyOf 59) sValue with
  | [] => { setDefaults with activated := false }
  | [only] => { setDefaults with activated := only = ascii "1" }
  | first :: more =>
    let v := { setDefaults with activated := first = ascii "1" }
    if v.activated then more.foldl readPart { v with blocking := false } else v

end XSSProtection

/-! ## There and back -/

/-- A value of one of the headers. -/
inductive SecurityHeader where
  | cacheControl (v : CacheControl)
  | hsts (v : HSTS)
  | xFrameOpts (v : XFrameOpts)
  | xssProtection (v : XSSProtection)

/-- Whatever the object held that reads the text. -/
def SecurityHeader.RoundTrips : SecurityHeader → Prop
  | cacheControl v => ∀ used : CacheControl, used.fromString v.toString = v
  | hsts v => ∀ used : HSTS, used.fromValue v.toValue = v
  | xFrameOpts v => ∀ used : XFrameOpts, (used.fromValue v.toValue).2 = v
  | xssProtection v => ∀ used : XSSProtection, used.fromValue v.toValue = v

/-- The values that no slip of a reader meets, and that are not written as another value is. -/
def SecurityHeader.Spared : SecurityHeader → Prop
  | cacheControl v => v.optionNoStore = true ∧ v.optionMustRevalidate = false
  | hsts v =>
    v.maxAge = 0 ∧
      if v.activated then v.includeSubDomains = true ∨ v.preload = true
      else v.includeSubDomains = false ∧ v.preload = false
  | xFrameOpts v => v.value = .deny ∧ v.fromURL = []
  | xssProtection v =>
    if v.activated then (v.reportURL = [] → v.blocking = true) ∧ ∀ byte ∈ v.reportURL, anyOf 59 byte = false
    else v.blocking = true ∧ v.reportURL = []

/-! ## Numbers -/

theorem digitsValue_append {text : Bytes} (digits : ∀ byte ∈ text, (48 ≤ byte && byte ≤ 57) = true) (value : Nat)
    (rest : Bytes) : digitsValue value (text ++ rest) = digitsValue (digitsValue value text) rest := by
  induction text generalizing value with
  | nil => rfl
  | cons byte text ih =>
    have first := digits byte List.mem_cons_self
    rw [List.cons_append, digitsValue, digitsValue, if_pos first, if_pos first]
    exact ih (fun other member => digits other (.tail _ member)) _

theorem digit_byte {digit : Nat} (small : digit < 10) :
    (48 ≤ 48 + UInt8.ofNat digit && 48 + UInt8.ofNat digit ≤ 57) = true ∧
      (48 + UInt8.ofNat digit - 48).toNat = digit := by
  interval_cases digit <;> decide

/-- The induction is on the digits from the last one on, as `Nat.digits` lists them. -/
theorem digitsValue_digits {digits : List Nat} (small : ∀ digit ∈ digits, digit < 10) :
    digitsValue 0 (digits.reverse.map fun digit => 48 + UInt8.ofNat digit) = Nat.ofDigits 10 digits := by
  induction digits with
  | nil => rfl
  | cons digit digits ih =>
    have behind : ∀ byte ∈ digits.reverse.map (fun digit => 48 + UInt8.ofNat digit), (48 ≤ byte && byte ≤ 57) = true := by
      intro byte member
      obtain ⟨other, listed, same⟩ := List.mem_map.mp member
      rw [← same]
      exact (digit_byte (small other (.tail _ (List.mem_reverse.mp listed)))).1
    obtain ⟨shown, value⟩ := digit_byte (small digit List.mem_cons_self)
    rw [List.reverse_cons, List.map_append, digitsValue_append behind, ih fun other member => small other (.tail _ member)]
    simp only [List.map_cons, List.map_nil, digitsValue, shown, if_true, value, Nat.ofDigits_cons]
    omega

theorem decimal_digits (number : Nat) : ∀ byte ∈ MIME.decimal number, (48 ≤ byte && byte ≤ 57) = true := by
  intro byte member
  unfold MIME.decimal at member
  split at member
  · rw [List.mem_singleton.mp member]
    rfl
  · obtain ⟨digit, listed, same⟩ := List.mem_map.mp member
    rw [← same]
    exact (digit_byte (Nat.digits_lt_base (by decide) (List.mem_reverse.mp listed))).1

theorem digitsValue_decimal (number : Nat) : digitsValue 0 (MIME.decimal number) = number := by
  unfold MIME.decimal
  split
  case isTrue zero =>
    rw [zero]
    rfl
  case isFalse =>
    rw [digitsValue_digits fun digit => Nat.digits_lt_base (by decide), Nat.ofDigits_digits]

/-- Neither a blank nor a sign at the front. -/
theorem strtoul_solid {byte : UInt8} (solid : 48 ≤ byte) (rest : Bytes) :
    strtoul (byte :: rest) = min (digitsValue 0 (byte :: rest)) (2 ^ 64 - 1) := by
  have value : 48 ≤ byte.toNat := UInt8.le_iff_toNat_le.mp solid
  have visible : isSpace byte = false := by
    simp only [isSpace, Bool.or_eq_false_iff, decide_eq_false_iff_not, Bool.and_eq_false_iff, UInt8.le_iff_toNat_le]
    constructor
    · intro blank
      rw [blank] at value
      exact absurd value (by decide)
    · right
      exact fun low => absurd (Nat.le_trans value low) (by decide)
  unfold strtoul
  rw [List.dropWhile_cons_of_neg (by simp [visible])]
  split
  case h_1 same =>
    rw [(List.cons.inj same).1] at value
    exact absurd value (by decide)
  case h_2 same =>
    rw [(List.cons.inj same).1] at value
    exact absurd value (by decide)
  case h_3 => rfl

theorem strtoul_letter {byte : UInt8} (letter : 58 ≤ byte) (rest : Bytes) : strtoul (byte :: rest) = 0 := by
  have value : 58 ≤ byte.toNat := UInt8.le_iff_toNat_le.mp letter
  have large : ¬(48 ≤ byte && byte ≤ 57) = true := by
    simp only [Bool.and_eq_true, decide_eq_true_eq, not_and, UInt8.le_iff_toNat_le]
    exact fun _ low => absurd (Nat.le_trans value low) (by decide)
  rw [strtoul_solid (UInt8.le_iff_toNat_le.mpr (Nat.le_trans (by decide) value)), digitsValue, if_neg large]
  rfl

theorem toUInt32_toString (number : UInt32) : toUInt32 (toString number) = number := by
  have digits := decimal_digits number.toNat
  have value := digitsValue_decimal number.toNat
  have word := number.toNat_lt
  unfold toUInt32 toString
  cases written : MIME.decimal number.toNat with
  | nil =>
    rw [written] at value
    rw [show strtoul [] = digitsValue 0 [] from rfl, value, UInt32.ofNat_toNat]
  | cons byte rest =>
    rw [written] at digits value
    have first := digits byte List.mem_cons_self
    simp only [Bool.and_eq_true, decide_eq_true_eq] at first
    rw [strtoul_solid first.1, value, Nat.min_eq_left (by omega), UInt32.ofNat_toNat]

/-! ## Parts -/

section parts

variable {isAnyOf : UInt8 → Bool} {text : Bytes}

theorem split_append (none : ∀ byte ∈ text, isAnyOf byte = false) {separator : UInt8}
    (separates : isAnyOf separator = true) (rest : Bytes) :
    split isAnyOf (text ++ separator :: rest) = text :: split isAnyOf (rest.dropWhile isAnyOf) := by
  have whole : ∀ byte ∈ text, (!isAnyOf byte) = true := fun byte member => by simp [none byte member]
  have stop : (!isAnyOf separator) = false := by simp [separates]
  rw [split_eq, takeWhile_stop stop, dropWhile_stop stop, List.takeWhile_eq_self_iff.mpr whole,
    List.dropWhile_eq_nil_iff.mpr whole]
  rfl

theorem parts_none (isAnyOf : UInt8 → Bool) (text : Bytes) :
    ∀ part ∈ split isAnyOf text, ∀ byte ∈ part, isAnyOf byte = false := by
  induction text with
  | nil => simp [split]
  | cons byte rest ih =>
    rw [split]
    split
    · split
      · exact ih
      · exact List.forall_mem_cons.mpr ⟨by simp, ih⟩
    case isFalse inside =>
      cases behind : split isAnyOf rest with
      | nil => simpa using inside
      | cons first more =>
        rw [behind] at ih
        obtain ⟨front, back⟩ := List.forall_mem_cons.mp ih
        refine List.forall_mem_cons.mpr ⟨List.forall_mem_cons.mpr ⟨by simpa using inside, front⟩, back⟩

/-- The parts, each one behind the separator. -/
theorem split_parts {separator : UInt8} (separates : isAnyOf separator = true) {parts : List Bytes}
    (filled : ∀ part ∈ parts, part ≠ [] ∧ ∀ byte ∈ part, isAnyOf byte = false)
    (none : ∀ byte ∈ text, isAnyOf byte = false) :
    split isAnyOf (text ++ parts.flatMap (separator :: ·)) = text :: parts := by
  induction parts generalizing text with
  | nil => rw [List.flatMap_nil, List.append_nil, split_of_forall none]
  | cons part parts ih =>
    obtain ⟨⟨some, plain⟩, later⟩ := List.forall_mem_cons.mp filled
    have kept : (part ++ parts.flatMap (separator :: ·)).dropWhile isAnyOf = part ++ parts.flatMap (separator :: ·) := by
      cases part with
      | nil => exact absurd rfl some
      | cons byte rest => rw [List.cons_append, List.dropWhile_cons_of_neg (by simp [plain byte List.mem_cons_self])]
    rw [List.flatMap_cons, List.cons_append, split_append none separates, kept, ih later plain]

end parts

/-! ## Cache control, there and back -/

namespace CacheControl

variable (v : CacheControl)

/-- What is written where an option is on, in the order of `toString`. -/
def pieces : List (Bool × Bytes) :=
  [(v.optionMustRevalidate, ascii "must-revalidate"), (v.optionProxyRevalidate, ascii "proxy-revalidate"),
    (v.optionNoTransform, ascii "no-transform"), (v.optionImmutable, ascii "immutable"),
    (v.optionNoStore, ascii "no-store"), (v.optionNoCache, ascii "no-cache"), (v.optionPrivate, ascii "private"),
    (v.optionPublic, ascii "public"), (v.maxAge != 0, ascii "max-age=" ++ Headers.toString v.maxAge),
    (v.sMaxAge != 0, ascii "s-maxage=" ++ Headers.toString v.sMaxAge)]

/-- The texts of the options that are on. -/
def chosen (pieces : List (Bool × Bytes)) : List Bytes := (pieces.filter (·.1)).map (·.2)

theorem foldl_put {pieces : List (Bool × Bytes)} {r : Bytes} (filled : r ≠ []) :
    pieces.foldl (fun r piece => put piece.1 piece.2 r) r = r ++ (chosen pieces).flatMap (44 :: ·) := by
  induction pieces generalizing r with
  | nil => simp [chosen]
  | cons piece pieces ih =>
    obtain ⟨option, text⟩ := piece
    cases option with
    | false => exact ih filled
    | true =>
      have put_eq : put true text r = r ++ 44 :: text := by
        simp only [put, if_true, if_neg filled, List.append_assoc]
        rfl
      have grown : r ++ 44 :: text ≠ [] := by simp
      rw [List.foldl_cons, put_eq, ih grown, List.append_assoc]
      rfl

/-- The texts as they are read, one after the other, from the defaults on. -/
theorem read_put {pieces : List (Bool × Bytes)}
    (filled : ∀ piece ∈ pieces, piece.2 ≠ [] ∧ ∀ byte ∈ piece.2, anyOf 44 byte = false) (used : CacheControl) :
    used.fromString (pieces.foldl (fun r piece => put piece.1 piece.2 r) []) = (chosen pieces).foldl readParam setDefaults := by
  unfold fromString
  induction pieces with
  | nil => rfl
  | cons piece pieces ih =>
    obtain ⟨⟨some, plain⟩, later⟩ := List.forall_mem_cons.mp filled
    obtain ⟨option, text⟩ := piece
    cases option with
    | false => exact ih later
    | true =>
      have first : put true text [] = text := by simp [put]
      have listed : ∀ part ∈ chosen pieces, part ≠ [] ∧ ∀ byte ∈ part, anyOf 44 byte = false := by
        intro part member
        obtain ⟨other, kept, same⟩ := List.mem_map.mp member
        rw [← same]
        exact later other (List.mem_of_mem_filter kept)
      rw [List.foldl_cons, first, foldl_put some, split_parts rfl listed plain]
      rfl

theorem toString_eq : v.toString = v.pieces.foldl (fun r piece => put piece.1 piece.2 r) [] := rfl

theorem number_plain (number : UInt32) : ∀ byte ∈ Headers.toString number, anyOf 44 byte = false := by
  intro byte member
  have digit := decimal_digits number.toNat byte member
  simp only [Bool.and_eq_true, decide_eq_true_eq, UInt8.le_iff_toNat_le] at digit
  simp only [anyOf, Bool.or_eq_false_iff, decide_eq_false_iff_not]
  constructor <;> intro same <;> rw [same] at digit <;> exact absurd digit.1 (by decide)

theorem pieces_filled : ∀ piece ∈ v.pieces, piece.2 ≠ [] ∧ ∀ byte ∈ piece.2, anyOf 44 byte = false := by
  have age {text : Bytes} (filled : text ≠ []) (plain : ∀ byte ∈ text, anyOf 44 byte = false) (number : UInt32) :
      text ++ Headers.toString number ≠ [] ∧ ∀ byte ∈ text ++ Headers.toString number, anyOf 44 byte = false :=
    ⟨by simp [filled], List.forall_mem_append.mpr ⟨plain, number_plain number⟩⟩
  simp only [pieces, List.forall_mem_cons, List.not_mem_nil, false_imp_iff, implies_true, and_true]
  refine ⟨by decide, by decide, by decide, by decide, by decide, by decide, by decide, by decide, ?_, ?_⟩
  · exact age (by decide) (by decide) v.maxAge
  · exact age (by decide) (by decide) v.sMaxAge

/-- The piece is read where it is written. -/
def readPiece (read : CacheControl) (piece : Bool × Bytes) : CacheControl :=
  if piece.1 then read.readParam piece.2 else read

theorem foldl_chosen (pieces : List (Bool × Bytes)) (read : CacheControl) : (chosen pieces).foldl readParam read =
    pieces.foldl readPiece read := by
  induction pieces generalizing read with
  | nil => rfl
  | cons piece pieces ih =>
    obtain ⟨option, text⟩ := piece
    cases option <;> exact ih _

theorem toLower_digits {text : Bytes} (digits : ∀ byte ∈ text, (48 ≤ byte && byte ≤ 57) = true) : toLower text = text := by
  unfold toLower
  conv_rhs => rw [← List.map_id text]
  apply List.map_congr_left
  intro byte member
  have digit := digits byte member
  simp only [Bool.and_eq_true, decide_eq_true_eq, UInt8.le_iff_toNat_le] at digit
  rw [if_neg]
  · rfl
  · simp only [Bool.and_eq_true, decide_eq_true_eq, not_and, UInt8.le_iff_toNat_le]
    exact fun large => absurd (Nat.le_trans large digit.2) (by decide)

theorem readParam_maxAge (read : CacheControl) (number : UInt32) :
    read.readParam (ascii "max-age=" ++ Headers.toString number) = { read with maxAge := number } := by
  have lower : toLower (ascii "max-age=" ++ Headers.toString number) = ascii "max-age=" ++ Headers.toString number := by
    rw [toLower, List.map_append]
    exact congrArg₂ _ (by decide) (toLower_digits (decimal_digits number.toNat))
  have behind : (ascii "max-age=" ++ Headers.toString number).drop 8 = Headers.toString number := rfl
  unfold readParam
  simp only [lower]
  rw [behind, toUInt32_toString]
  rfl

theorem readParam_sMaxAge (read : CacheControl) (number : UInt32) :
    read.readParam (ascii "s-maxage=" ++ Headers.toString number) = { read with sMaxAge := number } := by
  have lower : toLower (ascii "s-maxage=" ++ Headers.toString number) = ascii "s-maxage=" ++ Headers.toString number := by
    rw [toLower, List.map_append]
    exact congrArg₂ _ (by decide) (toLower_digits (decimal_digits number.toNat))
  have behind : (ascii "s-maxage=" ++ Headers.toString number).drop 9 = Headers.toString number := rfl
  unfold readParam
  simp only [lower]
  rw [behind, toUInt32_toString]
  rfl

theorem readPiece_options (noStore noCache mustRevalidate isPrivate isPublic immutable noTransform proxyRevalidate : Bool) :
    ((pieces ⟨noStore, noCache, mustRevalidate, isPrivate, isPublic, immutable, noTransform, proxyRevalidate, 0, 0⟩).take
      8).foldl readPiece setDefaults =
        ⟨true, noCache, false, isPrivate, isPublic, immutable, noTransform, proxyRevalidate, 0, 0⟩ := by
  revert noStore noCache mustRevalidate isPrivate isPublic immutable noTransform proxyRevalidate
  decide +kernel

theorem readPiece_maxAge (read : CacheControl) (zero : read.maxAge = 0) (number : UInt32) :
    read.readPiece (number != 0, ascii "max-age=" ++ Headers.toString number) = { read with maxAge := number } := by
  unfold readPiece
  split
  case isTrue => exact readParam_maxAge read number
  case isFalse none =>
    have same : number = 0 := by simpa using none
    rw [same, ← zero]

theorem readPiece_sMaxAge (read : CacheControl) (zero : read.sMaxAge = 0) (number : UInt32) :
    read.readPiece (number != 0, ascii "s-maxage=" ++ Headers.toString number) = { read with sMaxAge := number } := by
  unfold readPiece
  split
  case isTrue => exact readParam_sMaxAge read number
  case isFalse none =>
    have same : number = 0 := by simpa using none
    rw [same, ← zero]

/-- What the reader finds in a text of the writer. -/
theorem fromString_toString (used : CacheControl) :
    used.fromString v.toString = { v with optionNoStore := true, optionMustRevalidate := false } := by
  have options := readPiece_options v.optionNoStore v.optionNoCache v.optionMustRevalidate v.optionPrivate v.optionPublic
    v.optionImmutable v.optionNoTransform v.optionProxyRevalidate
  have folded : v.pieces.foldl readPiece setDefaults =
      readPiece (readPiece ((v.pieces.take 8).foldl readPiece setDefaults)
        (v.maxAge != 0, ascii "max-age=" ++ Headers.toString v.maxAge))
        (v.sMaxAge != 0, ascii "s-maxage=" ++ Headers.toString v.sMaxAge) := rfl
  have early : v.pieces.take 8 = (pieces ⟨v.optionNoStore, v.optionNoCache, v.optionMustRevalidate, v.optionPrivate,
      v.optionPublic, v.optionImmutable, v.optionNoTransform, v.optionProxyRevalidate, 0, 0⟩).take 8 := rfl
  rw [toString_eq, read_put v.pieces_filled, foldl_chosen, folded, early, options, readPiece_maxAge _ rfl, readPiece_sMaxAge _ rfl]

end CacheControl

/-! ## Strict transport security, there and back -/

namespace HSTS

/-- What is looked at for the number begins with a letter. -/
theorem readPart_maxAge (v : HSTS) (part : Bytes) (zero : v.maxAge = 0) : (v.readPart part).maxAge = 0 := by
  unfold readPart
  split
  · exact zero
  split
  · exact zero
  split
  case isTrue begins =>
    rw [istartsWith, decide_eq_true_eq] at begins
    cases part with
    | nil => exact absurd begins (by decide)
    | cons byte rest =>
      have first : (if 97 ≤ byte && byte ≤ 122 then byte - 32 else byte) = 77 :=
        (List.cons_prefix_cons.mp begins).1.symm
      have letter : 58 ≤ byte := by
        split at first
        case isTrue small =>
          simp only [Bool.and_eq_true, decide_eq_true_eq] at small
          exact UInt8.le_trans (by decide) small.1
        case isFalse =>
          rw [first]
          decide
      simp only [List.drop_zero, toUInt32, strtoul_letter letter]
      rfl
  case isFalse => exact zero

theorem foldl_maxAge (parts : List Bytes) (v : HSTS) (zero : v.maxAge = 0) : (parts.foldl readPart v).maxAge = 0 := by
  induction parts generalizing v with
  | nil => exact zero
  | cons part parts ih => exact ih (v.readPart part) (readPart_maxAge v part zero)

/-- The reader never has an age. -/
theorem maxAge_fromValue (used : HSTS) (sValue : Bytes) : (used.fromValue sValue).maxAge = 0 := by
  unfold fromValue
  split
  · rfl
  · exact foldl_maxAge _ _ rfl

theorem fromValue_toValue (used : HSTS) (activated preload includeSubDomains : Bool) :
    used.fromValue (toValue ⟨activated, preload, includeSubDomains, 0⟩) =
      if activated && (includeSubDomains || preload) then ⟨true, preload, includeSubDomains, 0⟩ else setDefaults := by
  have fresh : ∀ sValue, used.fromValue sValue = setDefaults.fromValue sValue := fun _ => rfl
  rw [fresh]
  revert activated preload includeSubDomains
  decide +kernel

end HSTS

/-! ## Frames, there and back -/

namespace XFrameOpts

/-- Whatever is read, frames are denied. -/
theorem value_fromValue (used : XFrameOpts) (sValue : Bytes) : (used.fromValue sValue).2.value = .deny := by
  unfold fromValue
  split
  · rfl
  split
  · rfl
  split
  · rfl
  split
  · split <;> rfl
  · rfl

theorem fromValue_deny (used : XFrameOpts) : (used.fromValue (ascii "DENY")).2 = setDefaults := rfl

end XFrameOpts

/-! ## Scripts of other sites, there and back -/

namespace XSSProtection

theorem readPart_plain (v : XSSProtection) {part : Bytes} (plain : ∀ byte ∈ part, anyOf 59 byte = false)
    (before : ∀ byte ∈ v.reportURL, anyOf 59 byte = false) : ∀ byte ∈ (v.readPart part).reportURL, anyOf 59 byte = false := by
  unfold readPart
  split
  · exact before
  split
  · exact fun byte member => plain byte (List.mem_of_mem_drop member)
  · exact before

theorem foldl_plain {parts : List Bytes} (plain : ∀ part ∈ parts, ∀ byte ∈ part, anyOf 59 byte = false)
    (v : XSSProtection) (before : ∀ byte ∈ v.reportURL, anyOf 59 byte = false) :
    ∀ byte ∈ (parts.foldl readPart v).reportURL, anyOf 59 byte = false := by
  induction parts generalizing v with
  | nil => exact before
  | cons part parts ih =>
    obtain ⟨first, later⟩ := List.forall_mem_cons.mp plain
    exact ih later (v.readPart part) (readPart_plain v first before)

/-- An address that was read has no separator in it. -/
theorem reportURL_fromValue (used : XSSProtection) (sValue : Bytes) :
    ∀ byte ∈ (used.fromValue sValue).reportURL, anyOf 59 byte = false := by
  have none : ∀ byte ∈ ([] : Bytes), anyOf 59 byte = false := List.forall_mem_nil _
  have parts := parts_none (anyOf 59) sValue
  unfold fromValue
  split
  · exact none
  · exact none
  case h_3 listed =>
    rw [listed] at parts
    obtain ⟨_, later⟩ := List.forall_mem_cons.mp parts
    dsimp only
    split
    · exact foldl_plain later _ none
    · exact none

/-- What stands behind the separator, part by part. -/
theorem split_toValue {blocking : Bool} {url : Bytes} (filled : url ≠ []) (plain : ∀ byte ∈ url, anyOf 59 byte = false) :
    split (anyOf 59) (toValue ⟨true, blocking, url⟩) =
      ascii "1" :: ((if blocking then [ascii "mode=block"] else []) ++ [ascii "report=" ++ url]) := by
  have report : ∀ byte ∈ ascii "report=" ++ url, anyOf 59 byte = false :=
    List.forall_mem_append.mpr ⟨by decide, plain⟩
  have one := @split_append (anyOf 59) (ascii "1") (by decide) 59 rfl
  have block := @split_append (anyOf 59) (ascii "mode=block") (by decide) 59 rfl
  have written : toValue ⟨true, blocking, url⟩ = ascii "1" ++ 59 :: 32 ::
      (if blocking then ascii "mode=block" ++ 59 :: 32 :: (ascii "report=" ++ url) else ascii "report=" ++ url) := by
    simp only [toValue, Bool.not_true, Bool.false_eq_true, if_false, if_pos filled]
    cases blocking <;> rfl
  have behind : ∀ text, (32 :: (ascii "report=" ++ text)).dropWhile (anyOf 59) = ascii "report=" ++ text := fun _ => rfl
  rw [written, one]
  cases blocking with
  | false =>
    simp only [Bool.false_eq_true, if_false, behind, split_of_forall report]
    rfl
  | true =>
    have next : ∀ text, (32 :: (ascii "mode=block" ++ text)).dropWhile (anyOf 59) = ascii "mode=block" ++ text := fun _ => rfl
    simp only [if_true, next, block, behind, split_of_forall report]
    rfl

theorem fromValue_toValue (used : XSSProtection) {blocking : Bool} {url : Bytes} (filled : url ≠ [])
    (plain : ∀ byte ∈ url, anyOf 59 byte = false) :
    used.fromValue (toValue ⟨true, blocking, url⟩) = ⟨true, blocking, url⟩ := by
  have parts := @split_toValue blocking url filled plain
  unfold fromValue
  rw [parts]
  cases blocking <;> rfl

end XSSProtection

theorem roundTrips_cacheControl (v : CacheControl) : (SecurityHeader.cacheControl v).RoundTrips ↔ (SecurityHeader.cacheControl v).Spared := by
  simp only [SecurityHeader.RoundTrips, SecurityHeader.Spared, v.fromString_toString]
  constructor
  · intro same
    have equal := same v
    exact ⟨(congrArg CacheControl.optionNoStore equal).symm, (congrArg CacheControl.optionMustRevalidate equal).symm⟩
  · intro spared _
    rw [← spared.1, ← spared.2]

theorem roundTrips_hsts (v : HSTS) : (SecurityHeader.hsts v).RoundTrips ↔ (SecurityHeader.hsts v).Spared := by
  constructor
  · intro same
    have zero : v.maxAge = 0 := by
      rw [← same v]
      exact v.maxAge_fromValue _
    obtain ⟨activated, preload, includeSubDomains, maxAge⟩ := v
    dsimp only at zero
    subst zero
    have read := same HSTS.setDefaults
    rw [HSTS.fromValue_toValue] at read
    refine ⟨rfl, ?_⟩
    revert read
    cases activated <;> cases preload <;> cases includeSubDomains <;> decide
  · intro spared used
    obtain ⟨activated, preload, includeSubDomains, maxAge⟩ := v
    obtain ⟨zero, flags⟩ := spared
    dsimp only at zero flags
    subst zero
    rw [HSTS.fromValue_toValue]
    revert flags
    cases activated <;> cases preload <;> cases includeSubDomains <;> decide

theorem roundTrips_xFrameOpts (v : XFrameOpts) : (SecurityHeader.xFrameOpts v).RoundTrips ↔ (SecurityHeader.xFrameOpts v).Spared := by
  constructor
  · intro same
    have deny : v.value = .deny := by
      rw [← same v]
      exact v.value_fromValue _
    have read := same v
    rw [XFrameOpts.toValue, deny] at read
    exact ⟨deny, (congrArg XFrameOpts.fromURL read).symm⟩
  · intro spared used
    obtain ⟨value, fromURL⟩ := v
    obtain ⟨deny, none⟩ := spared
    dsimp only at deny none
    subst deny none
    exact used.fromValue_deny

theorem roundTrips_xssProtection (v : XSSProtection) : (SecurityHeader.xssProtection v).RoundTrips ↔ (SecurityHeader.xssProtection v).Spared := by
  obtain ⟨activated, blocking, url⟩ := v
  have fresh : ∀ (used : XSSProtection) sValue, used.fromValue sValue = XSSProtection.setDefaults.fromValue sValue :=
    fun _ _ => rfl
  have once (property : Prop) : (∀ _ : XSSProtection, property) ↔ property :=
    ⟨fun all => all XSSProtection.setDefaults, fun holds _ => holds⟩
  simp only [SecurityHeader.RoundTrips, SecurityHeader.Spared, fresh, once]
  cases activated with
  | false =>
    have written : XSSProtection.toValue ⟨false, blocking, url⟩ = ascii "0" := rfl
    have read : XSSProtection.setDefaults.fromValue (ascii "0") = ⟨false, true, []⟩ := by decide +kernel
    simp only [written, read, XSSProtection.mk.injEq, true_and, Bool.false_eq_true, if_false, eq_comm]
  | true =>
    by_cases none : url = []
    case pos =>
      subst none
      cases blocking with
      | false =>
        have read : XSSProtection.setDefaults.fromValue (XSSProtection.toValue ⟨true, false, []⟩) = ⟨true, true, []⟩ := by
          decide +kernel
        simp [read]
      | true =>
        have read : XSSProtection.setDefaults.fromValue (XSSProtection.toValue ⟨true, true, []⟩) = ⟨true, true, []⟩ := by
          decide +kernel
        simp [read]
    case neg =>
      simp only [if_true, none, false_imp_iff, true_and]
      constructor
      · intro same byte member
        have read := XSSProtection.setDefaults.reportURL_fromValue (XSSProtection.toValue ⟨true, blocking, url⟩)
        rw [same] at read
        exact read byte member
      · exact fun plain => XSSProtection.fromValue_toValue _ none plain

/-- A value comes back as it was, and whatever the reader held, exactly where no slip of a reader meets it. -/
theorem security_headers_iff (header : SecurityHeader) : header.RoundTrips ↔ header.Spared := by
  cases header with
  | cacheControl v => exact roundTrips_cacheControl v
  | hsts v => exact roundTrips_hsts v
  | xFrameOpts v => exact roundTrips_xFrameOpts v
  | xssProtection v => exact roundTrips_xssProtection v

/-- A policy of one year is read as no time at all. -/
theorem security_headers_lose : ¬(SecurityHeader.hsts ⟨true, false, true, 31536000⟩).RoundTrips ∧
    HSTS.toValue ⟨true, false, true, 31536000⟩ = ascii "max-age=31536000; includeSubDomains" ∧
    HSTS.setDefaults.fromValue (ascii "max-age=31536000; includeSubDomains") = ⟨true, false, true, 0⟩ := by
  have written : HSTS.toValue ⟨true, false, true, 31536000⟩ = ascii "max-age=31536000; includeSubDomains" := by
    decide +kernel
  have read : HSTS.setDefaults.fromValue (ascii "max-age=31536000; includeSubDomains") = ⟨true, false, true, 0⟩ := by
    decide +kernel
  refine ⟨fun same => ?_, written, read⟩
  have back := same HSTS.setDefaults
  rw [written, read] at back
  exact absurd back (by decide)

end Mantids.HTTP.Headers
