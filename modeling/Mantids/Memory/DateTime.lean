import Mantids.Library.Calendar
import Mantids.Library.Rounding
import Mantids.Library.Scanning

/-! `DATETIME`: times as texts. The local zone is fixed, and the time functions know every date. -/

set_option autoImplicit false

namespace Mantids.Memory.DATETIME

open Library.Calendar (Date dateOf daysBeforeYear isLeap monthLengths)
open Library.Scanning (Directive Ends Text Value decimal isDigit isDigit_pad number pad pad_spells real scan)
open Library.Rounding (rounded spacing)

/-! ## The time functions -/

/-- `struct tm`, with years from 1900 on and months from zero on. -/
structure Tm where
  year : Int
  mon : Int
  mday : Int
  hour : Int
  min : Int
  sec : Int

/-- The number of the first day of 1970. -/
def epoch : Int := 719162

def gmtime (v : Int) : Tm :=
  let date := dateOf (v / 86400 + epoch)
  { year := date.year - 1900
    mon := date.month
    mday := date.day
    hour := v % 86400 / 3600
    min := v % 3600 / 60
    sec := v % 60 }

/-- Months beyond the year are counted on. -/
def timegm (tm : Tm) : Int :=
  let year := tm.year + 1900 + tm.mon / 12
  let day := daysBeforeYear year + ((monthLengths (isLeap year)).take (tm.mon % 12).toNat).sum + (tm.mday - 1)
  86400 * (day - epoch) + 3600 * tm.hour + 60 * tm.min + tm.sec

/-- The zone is `timezone`, in seconds west of UTC. -/
def mktime (timezone : Int) (tm : Tm) : Int := timegm tm + timezone

/-- `%Y`. -/
def yearText (year : Int) : Text := if year < 0 then 45 :: decimal year.natAbs else decimal year.natAbs

/-- `%FT%T`. -/
def strftime (tm : Tm) : Text :=
  yearText (tm.year + 1900) ++ 45 :: (pad 2 (tm.mon + 1).toNat ++ 45 :: (pad 2 tm.mday.toNat ++
    84 :: (pad 2 tm.hour.toNat ++ 58 :: (pad 2 tm.min.toNat ++ 58 :: pad 2 tm.sec.toNat))))

/-! ## The codec -/

/-- `%FT%TZ`. -/
def getISOTimeStr (v : Int) : Text := strftime (gmtime v) ++ [90]

/-- `%d-%d-%d %d:%d:%d`. -/
def spaceFormat : List Directive :=
  [.integer, .literal 45, .integer, .literal 45, .integer, .space, .integer, .literal 58, .integer, .literal 58,
    .integer]

/-- `%d-%d-%dT%d:%d:%f%d:%dZ`. -/
def isoFormat : List Directive :=
  [.integer, .literal 45, .integer, .literal 45, .integer, .literal 84, .integer, .literal 58, .integer, .literal 58,
    .real, .integer, .literal 58, .integer, .literal 90]

/-- A variable stays as it is where nothing is scanned for it. -/
def integerAt (values : List Value) (pos : Nat) (start : Int) : Int :=
  match values[pos]? with
  | some (.integer value) => value
  | _ => start

/-- A `float` takes the nearest number of single precision. -/
def floatAt (values : List Value) (pos : Nat) (start : ℚ) : ℚ :=
  match values[pos]? with
  | some (.real value) => rounded 24 (-149) value
  | _ => start

/-- `(int)`. -/
def truncate (value : ℚ) : Int := if 0 ≤ value then ⌊value⌋ else ⌈value⌉

/-- What is scanned of a text with a `T`. -/
structure Scanned where
  tm : Tm
  s : ℚ
  tzh : Int
  tzm : Int

/-- The sign of the hours goes to the minutes. -/
def Scanned.of (s : ℚ) (text : Text) : Scanned :=
  let values := scan isoFormat text
  let tzh := integerAt values 6 0
  let tzm := integerAt values 7 0
  { tm := ⟨integerAt values 0 0, integerAt values 1 0, integerAt values 2 0, integerAt values 3 0,
      integerAt values 4 0, 0⟩
    s := floatAt values 5 s
    tzh
    tzm := if values.length > 6 ∧ tzh < 0 then tzm * -1 else tzm }

/-- `s` is what the uninitialized variable holds. -/
def fromISOTimeStr (timezone : Int) (s : ℚ) (v : Text) : Int :=
  if 32 ∈ v then
    let values := scan spaceFormat (v.takeWhile (· ≠ 0))
    let tm : Tm := ⟨integerAt values 0 0, integerAt values 1 0, integerAt values 2 0, integerAt values 3 0,
      integerAt values 4 0, integerAt values 5 0⟩
    mktime timezone { tm with year := tm.year - 1900, mon := tm.mon - 1 } - timezone
  else if 84 ∈ v then
    let scanned := Scanned.of s (v.takeWhile (· ≠ 0))
    mktime timezone { scanned.tm with
      year := scanned.tm.year - 1900, mon := scanned.tm.mon - 1, sec := truncate scanned.s } - timezone
  else 0

def toString (value : Int) : Text := getISOTimeStr value

/-- The verdict and the value that is held afterwards. -/
def fromString (timezone : Int) (s : ℚ) (value : Text) : Bool × Int :=
  if value = [] then (false, 0) else (true, fromISOTimeStr timezone s value)

/-! ## Texts of instants -/

/-- The digits of a second behind its point or comma. -/
structure Fraction where
  comma : Bool
  digits : Text
  present : digits ≠ []
  all : ∀ byte ∈ digits, isDigit byte = true

def Fraction.value (fraction : Fraction) : ℚ := (number fraction.digits : ℚ) / 10 ^ fraction.digits.length

def Fraction.text (fraction : Fraction) : Text := (if fraction.comma then 44 else 46) :: fraction.digits

inductive Offset where
  | utc
  | numeric (west : Bool) (hours : Fin 24) (minutes : Option (Fin 60))

namespace Offset

/-- How far local time is ahead. -/
def seconds : Offset → Int
  | utc => 0
  | numeric west hours minutes =>
    (if west then -1 else 1) * (3600 * hours.val + 60 * (minutes.elim 0 Fin.val : Nat))

def text : Offset → Text
  | utc => [90]
  | numeric west hours minutes =>
    (if west then 45 else 43) :: (pad 2 hours ++ minutes.elim [] fun minutes => 58 :: pad 2 minutes)

end Offset

/-- A date and time of ISO 8601, in its extended form. The last second of an hour may be a leap second. -/
structure ISO where
  date : Date
  years : 0 ≤ date.year ∧ date.year ≤ 9999
  hour : Fin 24
  minute : Fin 60
  second : Fin 61
  fraction : Option Fraction
  offset : Offset

namespace ISO

/-- The seconds and what follows. -/
def ending (iso : ISO) : Text := pad 2 iso.second ++ (iso.fraction.elim [] Fraction.text ++ iso.offset.text)

def text (iso : ISO) : Text :=
  pad 4 iso.date.year.toNat ++ 45 :: (pad 2 (iso.date.month + 1) ++ 45 :: (pad 2 iso.date.day ++
    84 :: (pad 2 iso.hour ++ 58 :: (pad 2 iso.minute ++ 58 :: iso.ending))))

def seconds (iso : ISO) : ℚ := iso.second.val + iso.fraction.elim 0 Fraction.value

/-- Local time up to the minute. -/
def localMinute (iso : ISO) : Int :=
  86400 * (iso.date.ordinal - epoch) + 3600 * iso.hour.val + 60 * iso.minute.val

/-- The instant that the text denotes. -/
def instant (iso : ISO) : ℚ := (iso.localMinute - iso.offset.seconds : Int) + iso.seconds

/-- A comma is not of the number that is scanned. -/
def scannedSeconds (iso : ISO) : ℚ :=
  iso.second.val + iso.fraction.elim 0 fun fraction => if fraction.comma then 0 else fraction.value

end ISO

/-! ## The bytes of a text -/

/-- What the texts consist of. -/
def plain (byte : UInt8) : Bool := isDigit byte || [43, 44, 45, 46, 58, 84, 90].contains byte

theorem plain_digits {digits : Text} (all : ∀ byte ∈ digits, isDigit byte = true) : digits.all plain = true := by
  rw [List.all_eq_true]
  intro byte member
  rw [plain, all byte member, Bool.true_or]

theorem plain_pad (width value : Nat) : (pad width value).all plain = true := plain_digits isDigit_pad

theorem ne_of_plain {byte : UInt8} (shown : plain byte = true) : byte ≠ 32 ∧ byte ≠ 0 := by
  constructor
  · rintro rfl
    cases shown
  · rintro rfl
    cases shown

/-- Of any date, one that there is not as well. -/
theorem plain_strftime (tm : Tm) : (strftime tm).all plain = true := by
  have year : (yearText (tm.year + 1900)).all plain = true := by
    unfold yearText
    split
    case isTrue => exact plain_pad _ _
    case isFalse => exact plain_pad _ _
  have marks : plain 45 = true ∧ plain 84 = true ∧ plain 58 = true := ⟨rfl, rfl, rfl⟩
  simp only [strftime, List.all_append, List.all_cons, year, plain_pad, marks, Bool.and_self]

theorem Offset.plain_text (offset : Offset) : offset.text.all plain = true := by
  cases offset with
  | utc => rfl
  | numeric west hours minutes =>
    have sign : plain (if west then 45 else 43) = true := by cases west <;> rfl
    have last : (minutes.elim [] fun minutes => 58 :: pad 2 minutes).all plain = true := by
      cases minutes with
      | none => rfl
      | some minutes => exact plain_pad 2 minutes
    rw [Offset.text, List.all_cons, sign, List.all_append, plain_pad, last]
    rfl

theorem Fraction.plain_text (fraction : Fraction) : fraction.text.all plain = true := by
  have mark : plain (if fraction.comma then 44 else 46) = true := by cases fraction.comma <;> rfl
  rw [Fraction.text, List.all_cons, mark, plain_digits fraction.all]
  rfl

theorem Fraction.value_bounds (fraction : Fraction) : 0 ≤ fraction.value ∧ fraction.value < 1 := by
  have scale : (0 : ℚ) < 10 ^ fraction.digits.length := pow_pos (by norm_num) _
  constructor
  · exact div_nonneg (Nat.cast_nonneg _) scale.le
  · rw [Fraction.value, div_lt_one scale]
    exact_mod_cast Library.Scanning.number_lt fraction.all

theorem Offset.ends_text (offset : Offset) : Ends offset.text := by
  intro byte first
  cases offset with
  | utc =>
    obtain rfl := Option.some.inj first
    decide
  | numeric west hours minutes =>
    obtain rfl := Option.some.inj first
    cases west <;> decide

/-- An offset is whole minutes. -/
theorem Offset.seconds_minutes (offset : Offset) : offset.seconds % 60 = 0 := by
  cases offset with
  | utc => rfl
  | numeric west hours minutes =>
    unfold Offset.seconds
    cases west with
    | false => simp only [Bool.false_eq_true, if_false]; omega
    | true => simp only [if_true]; omega

namespace ISO

theorem plain_text (iso : ISO) : iso.text.all plain = true := by
  have marks : plain 45 = true ∧ plain 84 = true ∧ plain 58 = true := ⟨rfl, rfl, rfl⟩
  have fraction : (iso.fraction.elim [] Fraction.text).all plain = true := by
    cases iso.fraction with
    | none => rfl
    | some fraction => exact fraction.plain_text
  simp only [text, ending, List.all_append, List.all_cons, plain_pad, marks, fraction, iso.offset.plain_text,
    Bool.and_self]

theorem space_notMem (iso : ISO) : 32 ∉ iso.text :=
  fun member => (ne_of_plain (List.all_eq_true.mp iso.plain_text 32 member)).1 rfl

theorem mark_mem (iso : ISO) : 84 ∈ iso.text := by
  apply List.mem_append_right _ (.tail _ _)
  apply List.mem_append_right _ (.tail _ _)
  exact List.mem_append_right _ List.mem_cons_self

theorem takeWhile_text (iso : ISO) : iso.text.takeWhile (· ≠ 0) = iso.text := by
  apply List.takeWhile_eq_self_iff.mpr
  intro byte member
  exact decide_eq_true (ne_of_plain (List.all_eq_true.mp iso.plain_text byte member)).2

/-! ## What is scanned -/

theorem real_ending (iso : ISO) : ∃ rest, real iso.ending = some (iso.scannedSeconds, rest) := by
  obtain ⟨date, years, hour, minute, second, fraction, offset⟩ := iso
  have shown := pad_spells (show 0 < 2 by decide) (second.isLt.trans (by decide))
  have ends := offset.ends_text
  unfold ending scannedSeconds
  cases fraction with
  | none =>
    refine ⟨offset.text, ?_⟩
    simp only [Option.elim_none, List.nil_append, add_zero]
    exact Library.Scanning.real_digits shown ends
  | some fraction =>
    obtain ⟨comma, digits, present, all⟩ := fraction
    cases comma with
    | true =>
      -- the comma ends the number
      have comma : Ends (44 :: (digits ++ offset.text)) := by
        intro byte first
        obtain rfl := Option.some.inj first
        decide
      refine ⟨44 :: (digits ++ offset.text), ?_⟩
      simp only [Option.elim_some, Fraction.text, if_true, List.cons_append, add_zero]
      exact Library.Scanning.real_digits shown comma
    | false =>
      refine ⟨offset.text, ?_⟩
      simp only [Option.elim_some, Fraction.text, Bool.false_eq_true, if_false, List.cons_append, Fraction.value]
      exact Library.Scanning.real_point shown all ends

theorem scan_text (iso : ISO) :
    ∃ more, scan isoFormat iso.text =
      .integer iso.date.year.toNat :: .integer (iso.date.month + 1 : Nat) :: .integer iso.date.day ::
        .integer iso.hour.val :: .integer iso.minute.val :: .real iso.scannedSeconds :: more := by
  obtain ⟨rest, read⟩ := iso.real_ending
  have years := iso.years
  have month := iso.date.month_lt
  have day : iso.date.day < 100 := iso.date.day_lt
  have hour := iso.hour.isLt
  have minute := iso.minute.isLt
  have two : 0 < 2 := Nat.two_pos
  rw [isoFormat, text, Library.Scanning.scan_integer_literal (pad_spells (by omega) (by omega)) rfl,
    Library.Scanning.scan_integer_literal (pad_spells two (by omega)) rfl,
    Library.Scanning.scan_integer_literal (pad_spells two day) rfl,
    Library.Scanning.scan_integer_literal (pad_spells two (by omega)) rfl,
    Library.Scanning.scan_integer_literal (pad_spells two (by omega)) rfl, Library.Scanning.scan_real read]
  exact ⟨_, rfl⟩

/-! ## The time of a text -/

theorem floor_add {whole : Nat} {part : ℚ} (bounds : 0 ≤ part ∧ part < 1) : ⌊(whole : ℚ) + part⌋ = whole := by
  rw [Int.floor_natCast_add, Int.floor_eq_zero_iff.mpr bounds, add_zero]

theorem floor_seconds (iso : ISO) : ⌊iso.seconds⌋ = iso.second.val ∧ ⌊iso.scannedSeconds⌋ = iso.second.val := by
  unfold seconds scannedSeconds
  cases iso.fraction with
  | none => exact ⟨floor_add ⟨le_rfl, one_pos⟩, floor_add ⟨le_rfl, one_pos⟩⟩
  | some fraction =>
    refine ⟨floor_add fraction.value_bounds, floor_add ?_⟩
    rw [Option.elim_some]
    split
    case isTrue => exact ⟨le_rfl, one_pos⟩
    case isFalse => exact fraction.value_bounds

theorem scannedSeconds_bounds (iso : ISO) : 0 ≤ iso.scannedSeconds ∧ iso.scannedSeconds < 2 ^ (24 - 1) := by
  obtain ⟨low, high⟩ := Int.floor_eq_iff.mp iso.floor_seconds.2
  have second : ((iso.second.val : ℤ) : ℚ) ≤ 60 := by exact_mod_cast Nat.le_of_lt_succ iso.second.isLt
  have nonneg : (0 : ℚ) ≤ ((iso.second.val : ℤ) : ℚ) := by exact_mod_cast Nat.zero_le _
  constructor
  · exact nonneg.trans low
  · norm_num
    linarith only [high, second]

end ISO

/-- A date is found again by its parts. -/
theorem timegm_date (date : Date) (hour min sec : Int) :
    timegm ⟨date.year - 1900, date.month, date.day, hour, min, sec⟩ =
      86400 * (date.ordinal - epoch) + 3600 * hour + 60 * min + sec := by
  have month := date.month_lt
  have first := date.first
  have year : date.year - 1900 + 1900 + (date.month : Int) / 12 = date.year := by omega
  have index : ((date.month : Int) % 12).toNat = date.month := by omega
  unfold timegm Date.ordinal
  dsimp only
  rw [year, index]
  omega

namespace ISO

/-- The offset has no part in it. -/
theorem fromISOTimeStr_text (timezone : Int) (s : ℚ) (iso : ISO) :
    fromISOTimeStr timezone s iso.text = iso.localMinute + ⌊rounded 24 (-149) iso.scannedSeconds⌋ := by
  obtain ⟨more, values⟩ := iso.scan_text
  have nonneg : 0 ≤ rounded 24 (-149) iso.scannedSeconds :=
    Library.Rounding.rounded_nonneg iso.scannedSeconds_bounds.1
  have year : (iso.date.year.toNat : Int) = iso.date.year := Int.toNat_of_nonneg iso.years.1
  have month : ((iso.date.month + 1 : Nat) : Int) - 1 = iso.date.month := by omega
  rw [fromISOTimeStr, if_neg iso.space_notMem, if_pos iso.mark_mem, iso.takeWhile_text]
  unfold Scanned.of
  simp only [values, integerAt, floatAt, List.getElem?_cons_zero, List.getElem?_cons_succ]
  rw [mktime, add_sub_cancel_right, year, month, truncate, if_pos nonneg, timegm_date, localMinute]

theorem fromString_text_iff (timezone : Int) (s : ℚ) (iso : ISO) :
    fromString timezone s iso.text = (true, ⌊iso.instant⌋) ↔
      iso.offset.seconds = 0 ∧
        spacing 24 (-149) iso.scannedSeconds / 2 < ⌊iso.scannedSeconds⌋ + 1 - iso.scannedSeconds := by
  have minutes := iso.offset.seconds_minutes
  obtain ⟨nonneg, small⟩ := iso.scannedSeconds_bounds
  have present : iso.text ≠ [] := List.ne_nil_of_mem iso.mark_mem
  have instant : ⌊iso.instant⌋ = iso.localMinute - iso.offset.seconds + iso.second.val := by
    rw [ISO.instant, Int.floor_intCast_add, iso.floor_seconds.1]
  have whole := Library.Rounding.floor_rounded (show (-149 : ℤ) < 0 by decide) nonneg small (show 2 ≤ 24 by decide)
  rw [fromString, if_neg present, fromISOTimeStr_text, instant, whole, Prod.mk.injEq, ← not_le]
  simp only [true_and]
  rw [iso.floor_seconds.2]
  split
  case isTrue close =>
    -- an offset is never the second that is gained
    constructor
    · intro same
      omega
    · intro both
      exact absurd close both.2
  case isFalse far =>
    constructor
    · intro same
      exact ⟨by omega, far⟩
    · intro both
      rw [both.1, sub_zero]

end ISO

/-! ## Times with a four-digit year -/

theorem gmtime_year (t : Int) : (gmtime t).year + 1900 = (dateOf (t / 86400 + epoch)).year := Int.sub_add_cancel _ _

theorem gmtime_lt (t : Int) :
    (t % 86400 / 3600).toNat < 24 ∧ (t % 3600 / 60).toNat < 60 ∧ (t % 60).toNat < 61 := by omega

/-- The text of a time, taken apart. -/
def isoOf (t : Int) (years : 0 ≤ (gmtime t).year + 1900 ∧ (gmtime t).year + 1900 ≤ 9999) : ISO where
  date := dateOf (t / 86400 + epoch)
  years := gmtime_year t ▸ years
  hour := ⟨(t % 86400 / 3600).toNat, (gmtime_lt t).1⟩
  minute := ⟨(t % 3600 / 60).toNat, (gmtime_lt t).2.1⟩
  second := ⟨(t % 60).toNat, (gmtime_lt t).2.2⟩
  fraction := none
  offset := .utc

section
variable {t : Int}

theorem toString_isoOf (first : 1000 ≤ (gmtime t).year + 1900)
    (years : 0 ≤ (gmtime t).year + 1900 ∧ (gmtime t).year + 1900 ≤ 9999) : toString t = (isoOf t years).text := by
  have digits : yearText ((gmtime t).year + 1900) = pad 4 (dateOf (t / 86400 + epoch)).year.toNat := by
    rw [gmtime_year] at first years ⊢
    have same : (dateOf (t / 86400 + epoch)).year.natAbs = (dateOf (t / 86400 + epoch)).year.toNat := by omega
    have length : Nat.log 10 (dateOf (t / 86400 + epoch)).year.toNat = 3 := by
      apply (Nat.log_eq_iff (.inl (by decide))).mpr
      omega
    rw [yearText, if_neg (by omega), decimal, same, length]
  rw [toString, getISOTimeStr, strftime, digits]
  simp only [List.append_assoc, List.cons_append]
  rfl

theorem instant_isoOf (years : 0 ≤ (gmtime t).year + 1900 ∧ (gmtime t).year + 1900 ≤ 9999) :
    (isoOf t years).instant = t := by
  have second : (isoOf t years).seconds = ((t % 60 : Int) : ℚ) := by
    have nonneg : ((t % 60).toNat : Int) = t % 60 := by omega
    rw [← nonneg, Int.cast_natCast]
    exact add_zero _
  have minute : (isoOf t years).localMinute - (isoOf t years).offset.seconds = t - t % 60 := by
    unfold ISO.localMinute isoOf Offset.seconds
    dsimp only
    rw [Library.Calendar.ordinal_dateOf]
    omega
  rw [ISO.instant, minute, second, ← Int.cast_add, Int.sub_add_cancel]

theorem fromString_toString (timezone : Int) (s : ℚ) (first : 1000 ≤ (gmtime t).year + 1900)
    (last : (gmtime t).year + 1900 ≤ 9999) : fromString timezone s (toString t) = (true, t) := by
  have years : 0 ≤ (gmtime t).year + 1900 ∧ (gmtime t).year + 1900 ≤ 9999 := ⟨by omega, last⟩
  have read := (isoOf t years).fromString_text_iff timezone s
  rw [instant_isoOf, Int.floor_intCast] at read
  rw [toString_isoOf first years]
  apply read.mpr
  obtain ⟨nonneg, small⟩ := (isoOf t years).scannedSeconds_bounds
  obtain ⟨steps, -, positive, step⟩ :=
    Library.Rounding.spacing_steps (show (-149 : ℤ) < 0 by decide) nonneg small (show 2 ≤ 24 by decide)
  have whole : (⌊(isoOf t years).scannedSeconds⌋ : ℚ) = (isoOf t years).scannedSeconds := by
    rw [(isoOf t years).floor_seconds.2, Int.cast_natCast]
    exact (add_zero _).symm
  refine ⟨rfl, ?_⟩
  rw [whole, add_sub_cancel_left, step, div_div, div_lt_one (by positivity)]
  have size : (1 : ℚ) ≤ steps := Nat.one_le_cast.mpr positive
  linarith only [size]

end

/-! ## The codec as a whole -/

/-- Times come back from their texts. A text is read as the instant that it denotes where its offset is none, and its
seconds are not rounded up to the next whole one. -/
theorem codec_iff (timezone : Int) (s : ℚ) :
    (∀ t, 1000 ≤ (gmtime t).year + 1900 → (gmtime t).year + 1900 ≤ 9999 →
      fromString timezone s (toString t) = (true, t)) ∧
    ∀ iso : ISO, fromString timezone s iso.text = (true, ⌊iso.instant⌋) ↔
      iso.offset.seconds = 0 ∧
        spacing 24 (-149) iso.scannedSeconds / 2 < ⌊iso.scannedSeconds⌋ + 1 - iso.scannedSeconds :=
  ⟨fun _ first last => fromString_toString timezone s first last,
    fun iso => iso.fromString_text_iff timezone s⟩

theorem codec_epoch : fromString 18000 0 (toString 0) = (true, 0) :=
  (codec_iff 18000 0).1 0 (by decide) (by decide)

/-- `2024-01-01T00:00:00+02:00`. -/
theorem not_codec : ¬∀ (timezone : Int) (s : ℚ),
    (∀ t, 1000 ≤ (gmtime t).year + 1900 → (gmtime t).year + 1900 ≤ 9999 →
      fromString timezone s (toString t) = (true, t)) ∧
    ∀ iso : ISO, fromString timezone s iso.text = (true, ⌊iso.instant⌋) := by
  intro claim
  have read := (claim 0 0).2
    { date := ⟨2024, 0, 1, by decide, by decide⟩
      years := by decide
      hour := ⟨0, by decide⟩
      minute := ⟨0, by decide⟩
      second := ⟨0, by decide⟩
      fraction := none
      offset := .numeric false ⟨2, by decide⟩ (some ⟨0, by decide⟩) }
  rw [ISO.fromString_text_iff] at read
  exact absurd read.1 (by decide)

end Mantids.Memory.DATETIME
