import Mantids.Protocols.SecurityHeaders

/-! Addresses, their masks and their ranges (`a_ipv4.cpp`), on a machine that keeps the low byte first. -/

set_option autoImplicit false

namespace Mantids.Memory.Abstract

open MIME

/-! ## Words -/

/-- `s_addr`: the first number of an address is its low byte. -/
abbrev InAddr := BitVec 32

/-- A byte of a word, in the order in which they are in memory. -/
def octet (value : BitVec 32) (pos : Nat) : BitVec 8 := value.extractLsb' (8 * pos) 8

def ofOctets (first second third fourth : BitVec 8) : InAddr := fourth ++ third ++ second ++ first

/-- Also `ntohl`. -/
def htonl (value : BitVec 32) : BitVec 32 := octet value 0 ++ octet value 1 ++ octet value 2 ++ octet value 3

/-- The result starts at the base, and is doubled. -/
def u64pow (base exponent : BitVec 32) : BitVec 64 :=
  if exponent = 0 then 1 else (fun result => result * 2)^[exponent.toNat - 1] (base.setWidth 64)

/-! ## Texts -/

/-- `inet_ntop` for `AF_INET`. -/
def inetNtop (value : InAddr) : Bytes :=
  MIME.decimal (octet value 0).toNat ++ ascii "." ++ MIME.decimal (octet value 1).toNat ++ ascii "." ++
    MIME.decimal (octet value 2).toNat ++ ascii "." ++ MIME.decimal (octet value 3).toNat

/-- The numbers behind those that are done; `current` is the one being read. -/
def readOctets : (done : List Nat) → (current : Option Nat) → Bytes → Option (List Nat)
  | done, current, [] => if current.isSome && done.length = 3 then some (done ++ current.toList) else none
  | done, current, byte :: rest =>
    if 48 ≤ byte && byte ≤ 57 then
      match current with
      | none => if done.length = 4 then none else readOctets done (some (byte.toNat - 48)) rest
      | some value =>
        -- no digit stands behind a zero in front
        if value = 0 || 255 < value * 10 + (byte.toNat - 48) then none
        else readOctets done (some (value * 10 + (byte.toNat - 48))) rest
    else if byte = 46 then
      match current with
      | none => none
      | some value => if done.length = 3 then none else readOctets (done ++ [value]) none rest
    else none

/-- `inet_pton` for `AF_INET`. -/
def inetPton (src : Bytes) : Option InAddr :=
  (readOctets [] none src).map fun octets =>
    ofOctets (BitVec.ofNat 8 (octets.getD 0 0)) (BitVec.ofNat 8 (octets.getD 1 0)) (BitVec.ofNat 8 (octets.getD 2 0))
      (BitVec.ofNat 8 (octets.getD 3 0))

namespace IPV4

def toStringWithMask (value : InAddr) (cidrMask : UInt8) : Bytes :=
  inetNtop value ++ if cidrMask = 32 then [] else ascii "/" ++ MIME.decimal cidrMask.toNat

/-- Whether it was read, and the address. -/
def fromStringAddress (value : Bytes) : Bool × InAddr :=
  if value = [] then (true, 0)
  else
    match inetPton (HTTP.cString value) with
    | some xvalue => (true, xvalue)
    | none => (false, 0)

def fromStringWithNetmask (value : Bytes) : Bool × InAddr × UInt8 :=
  if 47 ∉ value then ((fromStringAddress value).1, (fromStringAddress value).2, 32)
  else
    let detectedNetmask := (value.dropWhile (· ≠ 47)).drop 1
    if detectedNetmask.length ≠ 1 ∧ detectedNetmask.length ≠ 2 then (false, 0, 0)
    else
      let netmask := UInt8.ofNat (HTTP.strtoul detectedNetmask)
      if 32 < netmask then (false, 0, 0)
      else
        let address := fromStringAddress (value.takeWhile (· ≠ 47))
        (address.1, address.2, netmask)

/-! ## Ranges -/

def matchRange (haystack : InAddr) (cidr : UInt8) (needle : InAddr) : Bool :=
  if 32 < cidr then false
  else
    let baseNetmask := htonl ((u64pow 2 (BitVec.ofNat 32 cidr.toNat) - 1).setWidth 32)
    htonl haystack &&& baseNetmask = htonl needle &&& baseNetmask

def masks : List (String × UInt8) :=
  [("255.255.255.255", 32), ("255.255.255.254", 31), ("255.255.255.252", 30), ("255.255.255.248", 29),
    ("255.255.255.240", 28), ("255.255.255.224", 27), ("255.255.255.192", 26), ("255.255.255.128", 25),
    ("255.255.255.0", 24), ("255.255.254.0", 23), ("255.255.252.0", 22), ("255.255.248.0", 21),
    ("255.255.240.0", 20), ("255.255.224.0", 19), ("255.255.192.0", 18), ("255.255.128.0", 17),
    ("255.255.0.0", 16), ("255.254.0.0", 15), ("255.252.0.0", 14), ("255.248.0.0", 13),
    ("255.240.0.0", 12), ("255.224.0.0", 11), ("255.192.0.0", 10), ("255.128.0.0", 9),
    ("255.0.0.0", 8), ("254.0.0.0", 7), ("252.0.0.0", 6), ("248.0.0.0", 5),
    ("240.0.0.0", 4), ("224.0.0.0", 3), ("192.0.0.0", 2), ("128.0.0.0", 1), ("0.0.0.0", 0)]

def toCIDRMask (value : InAddr) : UInt8 :=
  ((masks.find? fun mask => ascii mask.1 = toStringWithMask value 32).map (·.2)).getD 255

/-- Whether the length is one, and the mask. -/
def fromCIDRMask (value : UInt8) : Bool × InAddr :=
  if value ≤ 32 then (true, (u64pow 2 (BitVec.ofNat 32 value.toNat) - 1).setWidth 32)
  else (false, (fromStringAddress (ascii "0.0.0.0")).2)

end IPV4

/-- A variable with an address. -/
structure IPV4 where
  value : InAddr
  cidrMask : UInt8
  deriving DecidableEq

namespace IPV4

/-- The mask is not given on, and counts as 32. -/
def toString (object : IPV4) : Bytes := toStringWithMask object.value 32

/-- Whether the text was read, and the variable; what it was before does not matter. -/
def fromString (_ : IPV4) (text : Bytes) : Bool × IPV4 :=
  ((fromStringWithNetmask text).1, ⟨(fromStringWithNetmask text).2.1, (fromStringWithNetmask text).2.2⟩)

end IPV4

/-! ## Bits -/

theorem getLsbD_htonl (value : BitVec 32) {i : Nat} (inside : i < 32) :
    (htonl value).getLsbD i = value.getLsbD (8 * (3 - i / 8) + i % 8) := by
  simp only [htonl, octet, BitVec.getLsbD_append, BitVec.getLsbD_extractLsb']
  split
  case isTrue first =>
    simp only [first, decide_true, Bool.true_and]
    congr 1
    omega
  split
  case isTrue second =>
    simp only [second, decide_true, Bool.true_and]
    congr 1
    omega
  split
  case isTrue third =>
    simp only [third, decide_true, Bool.true_and]
    congr 1
    omega
  case isFalse =>
    have last : i - 8 - 8 - 8 < 8 := by omega
    simp only [last, decide_true, Bool.true_and]
    congr 1
    omega

/-- The bits of an address from the most significant on. -/
theorem getMsbD_htonl (value : InAddr) {i : Nat} (inside : i < 32) :
    (htonl value).getMsbD i = value.getLsbD (8 * (i / 8) + (7 - i % 8)) := by
  have place : 8 * (3 - (32 - 1 - i) / 8) + (32 - 1 - i) % 8 = 8 * (i / 8) + (7 - i % 8) := by omega
  rw [BitVec.getMsbD, getLsbD_htonl value (by omega), place]
  simp [inside]

theorem htonl_eq_iff (value other : BitVec 32) : htonl value = htonl other ↔ value = other := by
  constructor
  · intro same
    apply BitVec.eq_of_getLsbD_eq
    intro i inside
    have place : 8 * (3 - (8 * (3 - i / 8) + i % 8) / 8) + (8 * (3 - i / 8) + i % 8) % 8 = i := by omega
    have bits := congrArg (fun word => word.getLsbD (8 * (3 - i / 8) + i % 8)) same
    rwa [getLsbD_htonl _ (by omega), getLsbD_htonl _ (by omega), place] at bits
  · rintro rfl
    rfl

theorem htonl_and (value other : BitVec 32) : htonl value &&& htonl other = htonl (value &&& other) := by
  apply BitVec.eq_of_getLsbD_eq
  intro i inside
  rw [BitVec.getLsbD_and, getLsbD_htonl _ inside, getLsbD_htonl _ inside, getLsbD_htonl _ inside, BitVec.getLsbD_and]

namespace IPV4

/-- What the loops make of a length: that many low bits. -/
theorem getLsbD_netmask {cidr : UInt8} (short : cidr ≤ 32) {i : Nat} (inside : i < 32) :
    ((u64pow 2 (BitVec.ofNat 32 cidr.toNat) - 1).setWidth 32).getLsbD i = decide (i < cidr.toNat) := by
  have powers : ∀ length : Fin 33, (u64pow 2 (BitVec.ofNat 32 length) - 1).setWidth 32 = BitVec.ofNat 32 (2 ^ length.val - 1) := by
    decide +kernel
  have power : (u64pow 2 (BitVec.ofNat 32 cidr.toNat) - 1).setWidth 32 = BitVec.ofNat 32 (2 ^ cidr.toNat - 1) :=
    powers ⟨cidr.toNat, Nat.lt_succ_of_le (UInt8.le_iff_toNat_le.mp short)⟩
  rw [power, BitVec.getLsbD_ofNat, Nat.testBit_two_pow_sub_one]
  simp [inside]

/-- The bits that are compared. -/
theorem matchRange_iff (haystack needle : InAddr) (cidr : UInt8) :
    matchRange haystack cidr needle = true ↔
      cidr ≤ 32 ∧ ∀ i < cidr.toNat, haystack.getLsbD i = needle.getLsbD i := by
  unfold matchRange
  split
  case isTrue long => simp [UInt8.not_le.mpr long]
  case isFalse short =>
    have small : cidr ≤ 32 := UInt8.not_lt.mp short
    have length : cidr.toNat ≤ 32 := UInt8.le_iff_toNat_le.mp small
    simp only [decide_eq_true_eq]
    rw [htonl_and, htonl_and, htonl_eq_iff]
    constructor
    · intro same
      refine ⟨small, ?_⟩
      intro i inside
      have bits := congrArg (fun word => word.getLsbD i) same
      simp only [BitVec.getLsbD_and] at bits
      rw [getLsbD_netmask small (by omega), decide_eq_true inside] at bits
      simpa using bits
    · rintro ⟨-, same⟩
      apply BitVec.eq_of_getLsbD_eq
      intro i inside
      rw [BitVec.getLsbD_and, BitVec.getLsbD_and, getLsbD_netmask small inside]
      by_cases low : i < cidr.toNat
      · rw [same i low]
      · simp [low]

/-! ## What is right -/

/-- The first bits of two addresses are the same. -/
def Agree (count : Nat) (address other : InAddr) : Prop :=
  ∀ i < count, (htonl address).getMsbD i = (htonl other).getMsbD i

/-- That many bits from the most significant on, and no other. -/
def IsNetmask (count : Nat) (mask : InAddr) : Prop := ∀ i < 32, (htonl mask).getMsbD i = decide (i < count)

/-- Ranges, masks and texts are as they should be for two addresses, a length and a variable that is written and read
into another. -/
structure Right (a b : InAddr) (c : UInt8) (x y : IPV4) : Prop where
  range : matchRange a c b = true ↔ c ≤ 32 ∧ Agree c.toNat a b
  netmask : c ≤ 32 → IsNetmask c.toNat (fromCIDRMask c).2
  length : c ≤ 32 → toCIDRMask (fromCIDRMask c).2 = c
  text : y.fromString x.toString = (true, x)

theorem agree_iff {count : Nat} (whole : 8 ∣ count) (short : count ≤ 32) (address other : InAddr) :
    Agree count address other ↔ ∀ i < count, address.getLsbD i = other.getLsbD i := by
  obtain ⟨bytes, rfl⟩ := whole
  constructor
  · intro agree i inside
    have bits := agree (8 * (i / 8) + (7 - i % 8)) (by omega)
    have place : 8 * ((8 * (i / 8) + (7 - i % 8)) / 8) + (7 - (8 * (i / 8) + (7 - i % 8)) % 8) = i := by omega
    rwa [getMsbD_htonl _ (by omega), getMsbD_htonl _ (by omega), place] at bits
  · intro same i inside
    rw [getMsbD_htonl _ (by omega), getMsbD_htonl _ (by omega)]
    exact same _ (by omega)

theorem isNetmask_iff {cidr : UInt8} (short : cidr ≤ 32) :
    IsNetmask cidr.toNat (fromCIDRMask cidr).2 ↔ 8 ∣ cidr.toNat := by
  have length : cidr.toNat ≤ 32 := UInt8.le_iff_toNat_le.mp short
  have places : IsNetmask cidr.toNat (fromCIDRMask cidr).2 ↔
      ∀ i < 32, (8 * (i / 8) + (7 - i % 8) < cidr.toNat ↔ i < cidr.toNat) := by
    unfold IsNetmask fromCIDRMask
    rw [if_pos short]
    apply forall₂_congr
    intro i inside
    rw [getMsbD_htonl _ inside, getLsbD_netmask short (by omega), decide_eq_decide]
  rw [places]
  generalize cidr.toNat = count at length
  revert count
  decide

theorem toCIDRMask_iff {cidr : UInt8} (short : cidr ≤ 32) : toCIDRMask (fromCIDRMask cidr).2 = cidr ↔ 8 ∣ cidr.toNat := by
  revert short
  revert cidr
  apply Helpers.Encoders.forall_byte
  decide +kernel

/-! ## Texts, there and back -/

theorem digit_toNat {digit : Nat} (small : digit < 10) :
    (48 ≤ 48 + UInt8.ofNat digit && 48 + UInt8.ofNat digit ≤ 57) = true ∧ (48 + UInt8.ofNat digit).toNat - 48 = digit := by
  refine ⟨(HTTP.Headers.digit_byte small).1, ?_⟩
  interval_cases digit <;> rfl

theorem readOctets_first {done : List Nat} (few : done.length ≠ 4) {digit : Nat} (small : digit < 10) (rest : Bytes) :
    readOctets done none ((48 + UInt8.ofNat digit) :: rest) = readOctets done (some digit) rest := by
  obtain ⟨isDigit, value⟩ := digit_toNat small
  rw [readOctets, if_pos isDigit, value]
  simp only [if_neg few]

theorem readOctets_next {value digit : Nat} (positive : value ≠ 0) (small : digit < 10) (fits : value * 10 + digit ≤ 255)
    (done : List Nat) (rest : Bytes) :
    readOctets done (some value) ((48 + UInt8.ofNat digit) :: rest) =
      readOctets done (some (value * 10 + digit)) rest := by
  obtain ⟨isDigit, shown⟩ := digit_toNat small
  have accepted : ¬(value = 0 || 255 < value * 10 + digit) = true := by
    simp only [Bool.or_eq_true, decide_eq_true_eq]
    omega
  rw [readOctets, if_pos isDigit, shown]
  simp only [if_neg accepted]

theorem readOctets_dot {done : List Nat} (few : done.length ≠ 3) (value : Nat) (rest : Bytes) :
    readOctets done (some value) (46 :: rest) = readOctets (done ++ [value]) none rest := by
  rw [readOctets, if_neg (by decide), if_pos rfl]
  simp [few]

/-- The digits of a byte. -/
theorem decimal_octet {value : Nat} (small : value < 256) : MIME.decimal value =
    if value < 10 then [48 + UInt8.ofNat value]
    else if value < 100 then [48 + UInt8.ofNat (value / 10), 48 + UInt8.ofNat (value % 10)]
    else [48 + UInt8.ofNat (value / 100), 48 + UInt8.ofNat (value / 10 % 10), 48 + UInt8.ofNat (value % 10)] := by
  have each : ∀ value : Fin 256, MIME.decimal value.val =
      if value.val < 10 then [48 + UInt8.ofNat value.val]
      else if value.val < 100 then [48 + UInt8.ofNat (value.val / 10), 48 + UInt8.ofNat (value.val % 10)]
      else [48 + UInt8.ofNat (value.val / 100), 48 + UInt8.ofNat (value.val / 10 % 10),
        48 + UInt8.ofNat (value.val % 10)] := by decide +kernel
  exact each ⟨value, small⟩

/-- A number of an address is read from its digits. -/
theorem readOctets_decimal {value : Nat} (small : value < 256) {done : List Nat} (few : done.length ≠ 4) (rest : Bytes) :
    readOctets done none (MIME.decimal value ++ rest) = readOctets done (some value) rest := by
  rw [decimal_octet small]
  split
  case isTrue one => exact readOctets_first few one rest
  split
  case isTrue two =>
    have whole : value / 10 * 10 + value % 10 = value := by omega
    rw [List.cons_append, List.cons_append, List.nil_append, readOctets_first few (by omega),
      readOctets_next (by omega) (by omega) (by omega), whole]
  case isFalse =>
    have whole : (value / 100 * 10 + value / 10 % 10) * 10 + value % 10 = value := by omega
    rw [List.cons_append, List.cons_append, List.cons_append, List.nil_append, readOctets_first few (by omega),
      readOctets_next (by omega) (by omega) (by omega), readOctets_next (by omega) (by omega) (by omega), whole]

theorem inetPton_inetNtop (value : InAddr) : inetPton (inetNtop value) = some value := by
  have bytes : ∀ pos, (octet value pos).toNat < 256 := fun pos => (octet value pos).isLt
  have read : readOctets [] none (inetNtop value) =
      some [(octet value 0).toNat, (octet value 1).toNat, (octet value 2).toNat, (octet value 3).toNat] := by
    unfold inetNtop
    simp only [List.append_assoc]
    have dot : ∀ rest, ascii "." ++ rest = 46 :: rest := fun rest => rfl
    rw [readOctets_decimal (bytes 0) (by simp), dot, readOctets_dot (by simp), readOctets_decimal (bytes 1) (by simp),
      dot, readOctets_dot (by simp), readOctets_decimal (bytes 2) (by simp), dot, readOctets_dot (by simp),
      ← List.append_nil (MIME.decimal (octet value 3).toNat), readOctets_decimal (bytes 3) (by simp)]
    rfl
  rw [inetPton, read]
  simp only [Option.map_some, List.getD_cons_zero, List.getD_cons_succ, BitVec.ofNat_toNat, BitVec.setWidth_eq]
  congr 1
  apply BitVec.eq_of_getLsbD_eq
  intro i inside
  simp only [ofOctets, octet, BitVec.getLsbD_append, BitVec.getLsbD_extractLsb']
  split
  case isTrue first => simp [first]
  split
  case isTrue second =>
    simp only [second, decide_true, Bool.true_and]
    congr 1
    omega
  split
  case isTrue third =>
    simp only [third, decide_true, Bool.true_and]
    congr 1
    omega
  case isFalse =>
    have last : i - 8 - 8 - 8 < 8 := by omega
    simp only [last, decide_true, Bool.true_and]
    congr 1
    omega

/-- Digits and points. -/
theorem mem_inetNtop {value : InAddr} {byte : UInt8} (member : byte ∈ inetNtop value) : byte ≠ 0 ∧ byte ≠ 47 := by
  have digits : ∀ number, byte ∈ MIME.decimal number → byte ≠ 0 ∧ byte ≠ 47 := by
    intro number digit
    have kind := HTTP.Headers.decimal_digits number byte digit
    constructor
    case left =>
      rintro rfl
      exact absurd kind (by decide)
    case right =>
      rintro rfl
      exact absurd kind (by decide)
  have point : byte ∈ ascii "." → byte ≠ 0 ∧ byte ≠ 47 := by
    intro here
    rw [List.mem_singleton.mp here]
    decide
  simp only [inetNtop, List.mem_append] at member
  rcases member with (((((one | dot) | two) | dot) | three) | dot) | four
  · exact digits _ one
  · exact point dot
  · exact digits _ two
  · exact point dot
  · exact digits _ three
  · exact point dot
  · exact digits _ four

theorem fromString_toString (x y : IPV4) : y.fromString x.toString = (true, ⟨x.value, 32⟩) := by
  have text : x.toString = inetNtop x.value := by
    rw [toString, toStringWithMask, if_pos rfl, List.append_nil]
  have noSlash : (47 : UInt8) ∉ inetNtop x.value := fun member => (mem_inetNtop member).2 rfl
  have whole : HTTP.cString (inetNtop x.value) = inetNtop x.value :=
    List.takeWhile_eq_self_iff.mpr fun byte member => decide_eq_true (mem_inetNtop member).1
  have filled : inetNtop x.value ≠ [] := by
    simp [inetNtop, ascii]
  have address : fromStringAddress (inetNtop x.value) = (true, x.value) := by
    rw [fromStringAddress, if_neg filled, whole, inetPton_inetNtop]
  rw [fromString, text, fromStringWithNetmask, if_pos noSlash, address]

/-- All of it is right for whole bytes of a mask, and for texts of variables without a mask of their own. -/
theorem right_iff (a b : InAddr) (c : UInt8) (x y : IPV4) :
    Right a b c x y ↔ (32 < c ∨ 8 ∣ c.toNat) ∧ x.cidrMask = 32 := by
  constructor
  · intro right
    constructor
    case left =>
      by_cases short : c ≤ 32
      · exact .inr ((isNetmask_iff short).mp (right.netmask short))
      · exact .inl (UInt8.not_le.mp short)
    case right =>
      have same := right.text
      rw [fromString_toString] at same
      exact (congrArg (fun read => read.2.cidrMask) same).symm
  · rintro ⟨lengths, noMask⟩
    have whole : c ≤ 32 → 8 ∣ c.toNat := fun short => lengths.resolve_left (UInt8.not_lt.mpr short)
    constructor
    case range =>
      rw [matchRange_iff]
      apply and_congr_right
      intro short
      exact (agree_iff (whole short) (UInt8.le_iff_toNat_le.mp short) a b).symm
    case netmask => exact fun short => (isNetmask_iff short).mpr (whole short)
    case length => exact fun short => (toCIDRMask_iff short).mpr (whole short)
    case text =>
      rw [fromString_toString, ← noMask]

/-- The addresses 128.0.0.0 and 0.0.0.0 differ in their first bit, 1.0.0.0 and 0.0.0.0 do not. -/
theorem ranges_wrong : matchRange (ofOctets 128 0 0 0) 1 (ofOctets 0 0 0 0) = true ∧
    matchRange (ofOctets 1 0 0 0) 1 (ofOctets 0 0 0 0) = false ∧
    (fromCIDRMask 1).2 = ofOctets 1 0 0 0 ∧ toCIDRMask (fromCIDRMask 1).2 = 255 ∧
    fromString ⟨0, 32⟩ (toString ⟨ofOctets 10 0 0 0, 8⟩) = (true, ⟨ofOctets 10 0 0 0, 32⟩) ∧
    ¬Right (ofOctets 128 0 0 0) (ofOctets 0 0 0 0) 1 ⟨ofOctets 10 0 0 0, 8⟩ ⟨0, 32⟩ := by
  refine ⟨by decide +kernel, by decide +kernel, by decide +kernel, by decide +kernel, by decide +kernel, ?_⟩
  intro right
  have length := right.length (by decide)
  revert length
  decide +kernel

end IPV4

end Mantids.Memory.Abstract
