import Mantids.Helpers.PercentEncoding
import Mantids.Library.Quoting
import Mantids.Memory.DateTime
import Mantids.Protocols.MimeMessage

/-! The log of requests (`rpclog.cpp` over `logbase.cpp`): one line for each call, with quoted fields. -/

set_option autoImplicit false

namespace Mantids.Program

open Library.Quoting Memory MIME
open Helpers.PercentEncoding (coded toURL toURL_eq)
open Memory.DATETIME (Tm strftime)

inductive ELogLevels where
  | levelAll
  | levelInfo
  | levelWarn
  | levelCritical
  | levelErr
  | levelDebug
  | levelDebug1
  deriving DecidableEq

inductive ELogColors where
  | logColorBold
  | logColorBlue
  | logColorRed
  | logColorPurple
  | logColorNormal
  | logColorGreen

inductive Priority where
  | logInfo
  | logWarning
  | logCrit
  | logErr

inductive File where
  | stdout
  | stderr

/-- With the members of `LogBase`. -/
structure RPCLog where
  logMode : UInt32
  debug : Bool
  usingPrintDate : Bool
  usingAttributeName : Bool
  usingColors : Bool
  printEmptyFields : Bool
  standardLogSeparator : Bytes
  modulesOutputExclusion : List Bytes
  disableDomain : Bool
  disableModule : Bool
  userAlignSize : UInt32
  moduleAlignSize : UInt32
  domainAlignSize : UInt32

namespace RPCLog

def new (logMode : UInt32) : RPCLog where
  logMode := logMode
  debug := false
  usingPrintDate := true
  usingAttributeName := true
  usingColors := true
  printEmptyFields := false
  standardLogSeparator := ascii " "
  modulesOutputExclusion := []
  disableDomain := false
  disableModule := false
  userAlignSize := 13
  moduleAlignSize := 13
  domainAlignSize := 13

/-- The strings of a call. -/
structure Entry where
  ip : Bytes
  sessionId : Bytes
  user : Bytes
  domain : Bytes
  module : Bytes

/-- The names in the line. -/
inductive FieldName where
  | ipaddr
  | sessid
  | user
  | domain
  | module
  | logdata
  deriving DecidableEq

def FieldName.text : FieldName → Bytes
  | ipaddr => ascii "IPADDR="
  | sessid => ascii "SESSID="
  | user => ascii "USER="
  | domain => ascii "DOMAIN="
  | module => ascii "MODULE="
  | logdata => ascii "LOGDATA="

/-- What a call writes to the system's log and to a file. -/
structure Output where
  syslog : Option (Priority × Bytes)
  printed : Option (File × Bytes)

/-- `c_str()`. -/
def cStr (text : Bytes) : Bytes := text.takeWhile (· ≠ 0)

def quoted (value : Bytes) : Bytes := 34 :: (value ++ [34])

/-- `toURL` with `ENC_QUOTEPRINT`. -/
def encoded (text : Bytes) : Bytes := ((toURL text .encQuoteprint).map Prod.snd).getD []

def truncateSessionId (sSessionId : Bytes) : Bytes :=
  if 12 < sSessionId.length then sSessionId.take 12 else sSessionId

/-- Out of a buffer of spaces that a null ends. -/
def getAlignedValue (value : Bytes) (sz : Nat) : Bytes :=
  if sz ≤ value.length then value else cStr (value ++ List.replicate (sz - value.length) 32)

def dashed (text : Bytes) : Bytes := if text = [] then [45] else text

/-- The minutes ahead of UTC, as `%z`. -/
def zoneText (gmtoff : Int) : Bytes :=
  (if gmtoff < 0 then 45 else 43) ::
    (Library.Scanning.pad 2 (gmtoff.natAbs / 60) ++ Library.Scanning.pad 2 (gmtoff.natAbs % 60))

/-- What `vsnprintf` leaves in the buffer of a text; nothing where there is no room at all. -/
def vsnprintf (outSize : UInt32) (formatted leftover : Bytes) : Bytes :=
  if outSize = 0 then leftover else (cStr formatted).take (outSize.toNat - 1)

local instance lawfulText : LawfulBEq (List UInt8) := inferInstance

section
variable (log : RPCLog)

def isUsingSyslog : Bool := log.logMode &&& 1 = 1

def isUsingStandardLog : Bool := log.logMode &&& 2 = 2

def printDate (tmp : Tm) (gmtoff : Int) : Bytes := strftime tmp ++ zoneText gmtoff ++ cStr log.standardLogSeparator

/-- The strings as they come into the line. -/
def logged (entry : Entry) : Entry :=
  let entry := { entry with
    user := encoded entry.user
    domain := encoded entry.domain
    sessionId := encoded (truncateSessionId entry.sessionId) }
  if !log.usingAttributeName && log.printEmptyFields then
    ⟨dashed entry.ip, dashed entry.sessionId, dashed entry.user, dashed entry.domain, dashed entry.module⟩
  else entry

def isPrinted (value : Bytes) : Bool := (value = [] && log.printEmptyFields) || value ≠ []

def nameText (name : FieldName) : Bytes := if log.usingAttributeName then name.text else []

def field (name : FieldName) (value : Bytes) (sz : Nat) : Bytes :=
  log.nameText name ++ getAlignedValue (quoted value) sz ++ log.standardLogSeparator

/-- `INET_ADDRSTRLEN` is 16. -/
def logLine (entry : Entry) (buffer : Bytes) : Bytes :=
  let entry := log.logged entry
  (if log.isPrinted entry.ip then log.field .ipaddr entry.ip 16 else []) ++
  (if log.isPrinted entry.sessionId then log.field .sessid entry.sessionId 15 else []) ++
  (if log.isPrinted entry.user then log.field .user entry.user log.userAlignSize.toNat else []) ++
  (if log.isPrinted entry.domain && !log.disableDomain then
    log.field .domain entry.domain log.domainAlignSize.toNat else []) ++
  (if log.isPrinted entry.module && !log.disableModule then
    log.field .module entry.module log.moduleAlignSize.toNat else []) ++
  (if log.isPrinted (cStr buffer) then log.nameText .logdata ++ quoted (encoded (cStr buffer)) else [])

/-- `\033[0m` ends a colour. -/
def inColor (color : ELogColors) (text : Bytes) : Bytes :=
  match color with
  | .logColorNormal => text
  | .logColorBold => 27 :: ascii "[1m" ++ text ++ 27 :: ascii "[0m"
  | .logColorRed => 27 :: ascii "[1;31m" ++ text ++ 27 :: ascii "[0m"
  | .logColorGreen => 27 :: ascii "[1;32m" ++ text ++ 27 :: ascii "[0m"
  | .logColorBlue => 27 :: ascii "[1;34m" ++ text ++ 27 :: ascii "[0m"
  | .logColorPurple => 27 :: ascii "[1;35m" ++ text ++ 27 :: ascii "[0m"

/-- What is printed in front of the line. -/
def printedFront (tmp : Tm) (gmtoff : Int) (color : ELogColors) (logLevelText : Bytes) : Bytes :=
  ascii "R/" ++ (if log.usingPrintDate then log.printDate tmp gmtoff else []) ++
    (if log.usingColors then
      (if log.usingAttributeName then ascii "LEVEL=" else []) ++ inColor color (cStr (getAlignedValue logLevelText 6))
    else cStr (getAlignedValue logLevelText 6)) ++
    cStr log.standardLogSeparator

/-- Messages for debugging do not go to the system's log. -/
def priority : ELogLevels → Option Priority
  | .levelInfo => some .logInfo
  | .levelWarn => some .logWarning
  | .levelCritical => some .logCrit
  | .levelErr => some .logErr
  | _ => none

def printStandardLog (tmp : Tm) (gmtoff : Int) (logSeverity : ELogLevels) (fp : File) (entry : Entry) (buffer : Bytes)
    (color : ELogColors) (logLevelText : Bytes) : Output :=
  if entry.module ∈ log.modulesOutputExclusion then ⟨none, none⟩
  else
    let logLine := log.logLine entry buffer
    { syslog :=
        if log.isUsingSyslog then (priority logSeverity).map fun priority => (priority, cStr logLine) else none
      printed :=
        if log.isUsingStandardLog then
          some (fp, log.printedFront tmp gmtoff color logLevelText ++ cStr logLine ++ [10])
        else none }

def logVA (tmp : Tm) (gmtoff : Int) (logSeverity : ELogLevels) (entry : Entry) (outSize : UInt32)
    (formatted leftover : Bytes) : Output :=
  let buffer := vsnprintf outSize formatted leftover
  match logSeverity with
  | .levelInfo => log.printStandardLog tmp gmtoff logSeverity .stdout entry buffer .logColorBold (ascii "INFO")
  | .levelWarn => log.printStandardLog tmp gmtoff logSeverity .stdout entry buffer .logColorBlue (ascii "WARN")
  | .levelDebug | .levelDebug1 =>
    if log.debug then
      log.printStandardLog tmp gmtoff logSeverity .stderr entry buffer .logColorGreen (ascii "DEBUG")
    else ⟨none, none⟩
  | .levelCritical => log.printStandardLog tmp gmtoff logSeverity .stderr entry buffer .logColorRed (ascii "CRIT")
  | .levelErr => log.printStandardLog tmp gmtoff logSeverity .stderr entry buffer .logColorPurple (ascii "ERR")
  | .levelAll => ⟨none, none⟩

end

/-! ## What is to be read of a line -/

section
variable (log : RPCLog)

/-- The fields that are written, with the values in their quotes. -/
def fields (entry : Entry) (buffer : Bytes) : List (FieldName × Bytes) :=
  let entry := log.logged entry
  (if log.isPrinted entry.ip then [(FieldName.ipaddr, entry.ip)] else []) ++
  (if log.isPrinted entry.sessionId then [(FieldName.sessid, entry.sessionId)] else []) ++
  (if log.isPrinted entry.user then [(FieldName.user, entry.user)] else []) ++
  (if log.isPrinted entry.domain && !log.disableDomain then [(FieldName.domain, entry.domain)] else []) ++
  (if log.isPrinted entry.module && !log.disableModule then [(FieldName.module, entry.module)] else []) ++
  (if log.isPrinted (cStr buffer) then [(FieldName.logdata, encoded (cStr buffer))] else [])

def fieldNames : List FieldName := [.ipaddr, .sessid, .user, .domain, .module, .logdata]

/-- The name at the end of what stands in front of a quotation. -/
def nameAtEnd (front : Bytes) : Option FieldName := fieldNames.find? fun name => decide (name.text <:+ front)

/-- No carriage return and no line feed. -/
def Unbroken (text : Bytes) : Prop := ∀ byte ∈ text, byte ≠ 10 ∧ byte ≠ 13

/-- A call of this severity is not passed over. -/
def isLogged (logSeverity : ELogLevels) (module : Bytes) : Bool :=
  module ∉ log.modulesOutputExclusion &&
    match logSeverity with
    | .levelAll => false
    | .levelDebug | .levelDebug1 => log.debug
    | _ => true

/-- A line says what its fields are: there are no quotes but those around them. -/
structure Tells (line : Bytes) (fields : List (FieldName × Bytes)) : Prop where
  unbroken : Unbroken line
  quotes : line.count 34 = 2 * fields.length
  values : insides 34 line = fields.map Prod.snd
  names : log.usingAttributeName = true →
    (quotations 34 line).map (fun quotation => nameAtEnd quotation.front) = fields.map fun field => some field.1

/-- A line that is written as a C string. It ends early where a separator holds a null. -/
structure Reports (line : Bytes) (fields : List (FieldName × Bytes)) : Prop where
  unbroken : Unbroken line
  values : insides 34 line <+: fields.map Prod.snd
  whole : 0 ∉ log.standardLogSeparator → log.Tells line fields

/-- What a call leaves in the system's log and in a file is one line each. -/
structure OneLine (fields : List (FieldName × Bytes)) (output : Output) : Prop where
  syslog : ∀ priority text, output.syslog = some (priority, text) → log.Reports text fields
  printed : ∀ fp text, output.printed = some (fp, text) → ∃ line, text = line ++ [10] ∧ log.Reports line fields

end

/-! ## Bytes that do no harm -/

def isSafe (byte : UInt8) : Bool := byte ≠ 0 && byte ≠ 10 && byte ≠ 13 && byte ≠ 34

theorem isSafe_iff (byte : UInt8) : isSafe byte = true ↔ byte ≠ 0 ∧ byte ≠ 10 ∧ byte ≠ 13 ∧ byte ≠ 34 := by
  simp only [isSafe, Bool.and_eq_true, decide_eq_true_eq, and_assoc]

theorem safe_coded (byte : UInt8) : (coded .encQuoteprint byte).all isSafe = true := by
  revert byte
  apply Helpers.Encoders.forall_byte
  decide +kernel

theorem encoded_eq (text : Bytes) : encoded text = text.flatMap (coded .encQuoteprint) := by
  rw [encoded, toURL_eq]
  rfl

/-- Whatever is encoded is safe. -/
theorem safe_encoded (text : Bytes) : (encoded text).all isSafe = true := by
  rw [encoded_eq, List.all_flatMap, List.all_eq_true]
  exact fun byte _ => safe_coded byte

theorem safe_plain {text : Bytes} (plain : text.all DATETIME.plain = true) : text.all isSafe = true := by
  rw [List.all_eq_true] at plain ⊢
  intro byte member
  have shown := plain byte member
  rw [isSafe_iff]
  refine ⟨?_, ?_, ?_, ?_⟩
  all_goals
    rintro rfl
    cases shown

theorem safe_dashed {text : Bytes} (safe : text.all isSafe = true) : (dashed text).all isSafe = true := by
  unfold dashed
  split
  case isTrue => rfl
  case isFalse => exact safe

/-- No quote and no control byte is in a text. -/
def Printable (text : Bytes) : Prop := ∀ byte ∈ text, byte ≠ 34 ∧ 32 ≤ byte ∧ byte ≠ 127

theorem Printable.safe {text : Bytes} (printable : Printable text) : text.all isSafe = true := by
  rw [List.all_eq_true]
  intro byte member
  obtain ⟨quote, low, -⟩ := printable byte member
  rw [isSafe_iff]
  refine ⟨?_, ?_, ?_, quote⟩
  all_goals
    rintro rfl
    exact absurd low (by decide)

theorem safe_zoneText (gmtoff : Int) : (zoneText gmtoff).all isSafe = true := by
  have sign : DATETIME.plain (if gmtoff < 0 then 45 else 43) = true := by
    split
    case isTrue => rfl
    case isFalse => rfl
  apply safe_plain
  simp only [zoneText, List.all_cons, sign, List.all_append, DATETIME.plain_pad, Bool.and_self]

/-! ## Texts without quotes and breaks -/

def Quiet (text : Bytes) : Prop := ∀ byte ∈ text, byte ≠ 34 ∧ byte ≠ 10 ∧ byte ≠ 13

namespace Quiet
variable {text rest : Bytes}

theorem of_safe (safe : text.all isSafe = true) : Quiet text := by
  intro byte member
  obtain ⟨-, feed, carriage, quote⟩ := (isSafe_iff byte).mp (List.all_eq_true.mp safe byte member)
  exact ⟨quote, feed, carriage⟩

theorem nil : Quiet [] := fun _ member => absurd member List.not_mem_nil

theorem append (first : Quiet text) (second : Quiet rest) : Quiet (text ++ rest) := by
  intro byte member
  rcases List.mem_append.mp member with front | back
  · exact first byte front
  · exact second byte back

theorem cut (quiet : Quiet text) : Quiet (cStr text) := fun byte member => quiet byte (List.takeWhile_subset _ member)

theorem unbroken (quiet : Quiet text) : Unbroken text := fun byte member => (quiet byte member).2

theorem notMem (quiet : Quiet text) : 34 ∉ text := fun member => (quiet 34 member).1 rfl

theorem spaces (count : Nat) : Quiet (List.replicate count 32) := by
  intro byte member
  obtain rfl := List.eq_of_mem_replicate member
  decide

end Quiet

theorem quiet_getAlignedValue {value : Bytes} (quiet : Quiet value) (sz : Nat) :
    Quiet (getAlignedValue value sz) := by
  unfold getAlignedValue
  split
  case isTrue => exact quiet
  case isFalse => exact (quiet.append (.spaces _)).cut

theorem quiet_inColor (color : ELogColors) {text : Bytes} (quiet : Quiet text) : Quiet (inColor color text) := by
  have around : ∀ {first last : Bytes}, first.all isSafe = true → last.all isSafe = true →
      Quiet (first ++ text ++ last) := fun first last => ((Quiet.of_safe first).append quiet).append (.of_safe last)
  have ends : (27 :: ascii "[0m").all isSafe = true := rfl
  cases color with
  | logColorNormal => exact quiet
  | logColorBold => exact @around (27 :: ascii "[1m") (27 :: ascii "[0m") rfl ends
  | logColorRed => exact @around (27 :: ascii "[1;31m") (27 :: ascii "[0m") rfl ends
  | logColorGreen => exact @around (27 :: ascii "[1;32m") (27 :: ascii "[0m") rfl ends
  | logColorBlue => exact @around (27 :: ascii "[1;34m") (27 :: ascii "[0m") rfl ends
  | logColorPurple => exact @around (27 :: ascii "[1;35m") (27 :: ascii "[0m") rfl ends

section
variable {log : RPCLog}

theorem quiet_printedFront (separator : Quiet log.standardLogSeparator) (tmp : Tm) (gmtoff : Int) (color : ELogColors)
    {logLevelText : Bytes} (level : Quiet logLevelText) :
    Quiet (log.printedFront tmp gmtoff color logLevelText) := by
  have date : Quiet (log.printDate tmp gmtoff) :=
    ((Quiet.of_safe (safe_plain (DATETIME.plain_strftime tmp))).append (.of_safe (safe_zoneText gmtoff))).append
      separator.cut
  have aligned : Quiet (cStr (getAlignedValue logLevelText 6)) := (quiet_getAlignedValue level 6).cut
  have name : Quiet (ascii "LEVEL=") := .of_safe rfl
  have mark : Quiet (ascii "R/") := .of_safe rfl
  unfold printedFront
  apply Quiet.append _ separator.cut
  apply Quiet.append
  · apply mark.append
    split
    case isTrue => exact date
    case isFalse => exact .nil
  · split
    case isTrue =>
      apply Quiet.append _ (quiet_inColor color aligned)
      split
      case isTrue => exact name
      case isFalse => exact .nil
    case isFalse => exact aligned

/-! ## The fields of the line -/

/-- A field as a text between quotes. -/
def written (log : RPCLog) (name : FieldName) (value : Bytes) (sz : Nat) : Framed UInt8 :=
  ⟨log.nameText name, value, List.replicate (sz - (value.length + 2)) 32 ++ log.standardLogSeparator⟩

theorem takeWhile_safe {text : Bytes} (safe : 0 ∉ text) : cStr text = text := by
  apply List.takeWhile_eq_self_iff.mpr
  intro byte member
  exact decide_eq_true (ne_of_mem_of_not_mem member safe)

theorem zero_notMem {text : Bytes} (safe : text.all isSafe = true) : 0 ∉ text := by
  intro member
  exact ((isSafe_iff 0).mp (List.all_eq_true.mp safe 0 member)).1 rfl

theorem getAlignedValue_quoted {value : Bytes} (safe : value.all isSafe = true) (sz : Nat) :
    getAlignedValue (quoted value) sz = quoted value ++ List.replicate (sz - (value.length + 2)) 32 := by
  have length : (quoted value).length = value.length + 2 := by
    rw [quoted, List.length_cons, List.length_append, List.length_singleton]
  unfold getAlignedValue
  rw [length]
  split
  case isTrue long => rw [Nat.sub_eq_zero_of_le long, List.replicate_zero, List.append_nil]
  case isFalse =>
    apply takeWhile_safe
    simp only [quoted, List.cons_append, List.mem_cons, List.mem_append, List.mem_replicate, List.not_mem_nil, not_or]
    exact ⟨by decide, ⟨zero_notMem safe, by decide, not_false⟩, fun space => absurd space.2 (by decide)⟩

theorem field_eq {value : Bytes} (safe : value.all isSafe = true) (name : FieldName) (sz : Nat) :
    log.field name value sz = (log.written name value sz).write 34 := by
  rw [field, getAlignedValue_quoted safe, written, Framed.write, quoted]
  simp only [List.append_assoc, List.cons_append, List.nil_append]

/-- The fields of a line as they are written. -/
def writtenFields (log : RPCLog) (entry : Entry) (buffer : Bytes) : List (FieldName × Framed UInt8) :=
  let entry := log.logged entry
  (if log.isPrinted entry.ip then [(FieldName.ipaddr, log.written .ipaddr entry.ip 16)] else []) ++
  (if log.isPrinted entry.sessionId then [(FieldName.sessid, log.written .sessid entry.sessionId 15)] else []) ++
  (if log.isPrinted entry.user then
    [(FieldName.user, log.written .user entry.user log.userAlignSize.toNat)] else []) ++
  (if log.isPrinted entry.domain && !log.disableDomain then
    [(FieldName.domain, log.written .domain entry.domain log.domainAlignSize.toNat)] else []) ++
  (if log.isPrinted entry.module && !log.disableModule then
    [(FieldName.module, log.written .module entry.module log.moduleAlignSize.toNat)] else []) ++
  (if log.isPrinted (cStr buffer) then
    [(FieldName.logdata, ⟨log.nameText .logdata, encoded (cStr buffer), []⟩)] else [])

/-- The values that stand in the line are safe. -/
structure Entry.Safe (entry : Entry) : Prop where
  ip : entry.ip.all isSafe = true
  sessionId : entry.sessionId.all isSafe = true
  user : entry.user.all isSafe = true
  domain : entry.domain.all isSafe = true
  module : entry.module.all isSafe = true

theorem safe_logged {entry : Entry} (ip : Printable entry.ip) (module : Printable entry.module) :
    (log.logged entry).Safe := by
  unfold logged
  dsimp only
  split
  case isTrue =>
    exact ⟨safe_dashed ip.safe, safe_dashed (safe_encoded _), safe_dashed (safe_encoded _),
      safe_dashed (safe_encoded _), safe_dashed module.safe⟩
  case isFalse => exact ⟨ip.safe, safe_encoded _, safe_encoded _, safe_encoded _, module.safe⟩

theorem flatMap_ite {α β : Type} (here : Bool) (a : α) (f : α → List β) :
    (if here then [a] else []).flatMap f = if here then f a else [] := by
  cases here with
  | false => rfl
  | true => exact List.flatMap_singleton f a

theorem map_ite {α β : Type} (here : Bool) (a : α) (f : α → β) :
    (if here then [a] else []).map f = if here then [f a] else [] := by
  cases here <;> rfl

theorem logLine_eq {entry : Entry} (safe : (log.logged entry).Safe) (buffer : Bytes) :
    log.logLine entry buffer =
      (log.writtenFields entry buffer).flatMap fun written => written.2.write 34 := by
  have data : log.nameText .logdata ++ quoted (encoded (cStr buffer)) =
      Framed.write 34 ⟨log.nameText .logdata, encoded (cStr buffer), []⟩ := rfl
  simp only [logLine, writtenFields, List.flatMap_append, flatMap_ite, field_eq safe.ip, field_eq safe.sessionId,
    field_eq safe.user, field_eq safe.domain, field_eq safe.module, data]

theorem fields_eq (entry : Entry) (buffer : Bytes) :
    log.fields entry buffer = (log.writtenFields entry buffer).map fun written => (written.1, written.2.inside) := by
  simp only [fields, writtenFields, List.map_append, map_ite, written]

/-- What is asked of each field of a line. -/
structure Fits (log : RPCLog) (name : FieldName) (written : Framed UInt8) : Prop where
  front : written.front = log.nameText name
  clean : written.Clean 34
  unbroken : Unbroken (written.write 34)
  ended : 0 ∉ log.standardLogSeparator → 0 ∉ written.write 34

theorem fits_of_quiet {name : FieldName} {value back : Bytes} (safe : value.all isSafe = true) (quiet : Quiet back)
    (ended : 0 ∉ log.standardLogSeparator → 0 ∉ back) : log.Fits name ⟨log.nameText name, value, back⟩ := by
  have nameSafe : (log.nameText name).all isSafe = true := by
    unfold nameText
    split
    case isTrue => cases name <;> rfl
    case isFalse => rfl
  have nameQuiet := Quiet.of_safe nameSafe
  have valueQuiet := Quiet.of_safe safe
  refine ⟨rfl, ⟨nameQuiet.notMem, valueQuiet.notMem, quiet.notMem⟩, ?_, ?_⟩
  · intro byte member
    simp only [Framed.write, List.mem_append, List.mem_cons] at member
    rcases member with front | rfl | inside | rfl | behind
    · exact nameQuiet.unbroken byte front
    · decide
    · exact valueQuiet.unbroken byte inside
    · decide
    · exact quiet.unbroken byte behind
  · intro absent member
    simp only [Framed.write, List.mem_append, List.mem_cons] at member
    rcases member with front | mark | inside | mark | behind
    · exact zero_notMem nameSafe front
    · exact absurd mark (by decide)
    · exact zero_notMem safe inside
    · exact absurd mark (by decide)
    · exact ended absent behind

theorem fits_written {value : Bytes} (safe : value.all isSafe = true) (separator : Quiet log.standardLogSeparator)
    (name : FieldName) (sz : Nat) : log.Fits name (log.written name value sz) := by
  apply fits_of_quiet safe ((Quiet.spaces _).append separator)
  intro absent member
  rcases List.mem_append.mp member with space | behind
  · exact absurd (List.eq_of_mem_replicate space) (by decide)
  · exact absent behind

theorem mem_ite {α : Type} {here : Bool} {a b : α} (member : b ∈ if here then [a] else []) : b = a := by
  cases here with
  | false => exact absurd member List.not_mem_nil
  | true => exact List.mem_singleton.mp member

theorem fits_writtenFields {entry : Entry} (safe : (log.logged entry).Safe)
    (separator : Quiet log.standardLogSeparator) (buffer : Bytes) :
    ∀ written ∈ log.writtenFields entry buffer, log.Fits written.1 written.2 := by
  intro written member
  simp only [writtenFields, List.mem_append] at member
  rcases member with ((((ip | session) | user) | domain) | module) | data
  · exact mem_ite ip ▸ fits_written safe.ip separator _ _
  · exact mem_ite session ▸ fits_written safe.sessionId separator _ _
  · exact mem_ite user ▸ fits_written safe.user separator _ _
  · exact mem_ite domain ▸ fits_written safe.domain separator _ _
  · exact mem_ite module ▸ fits_written safe.module separator _ _
  · exact mem_ite data ▸ fits_of_quiet (safe_encoded _) .nil fun _ => List.not_mem_nil

/-! ## What a line tells -/

theorem mem_fieldNames (name : FieldName) : name ∈ fieldNames := by
  cases name <;> decide

/-- No name is the end of another. -/
theorem eq_of_suffix {one other : FieldName} (ends : one.text <:+ other.text) : one = other := by
  revert ends
  cases one <;> cases other <;> decide

theorem nameAtEnd_text {name : FieldName} {front : Bytes} (ends : name.text <:+ front) :
    nameAtEnd front = some name := by
  cases found : nameAtEnd front with
  | none =>
    have absent := List.find?_eq_none.mp found name (mem_fieldNames name)
    exact absurd (decide_eq_true ends) absent
  | some other =>
    have also : other.text <:+ front := by simpa only [decide_eq_true_eq] using List.find?_some found
    rcases List.suffix_or_suffix_of_suffix ends also with shorter | shorter
    · rw [eq_of_suffix shorter]
    · rw [eq_of_suffix shorter]

theorem tells_of_fits {front : Bytes} (quiet : Quiet front) {pieces : List (FieldName × Framed UInt8)}
    (each : ∀ written ∈ pieces, log.Fits written.1 written.2) :
    log.Tells (front ++ pieces.flatMap fun written => written.2.write 34)
      (pieces.map fun written => (written.1, written.2.inside)) := by
  have clean : ∀ written ∈ pieces, written.2.Clean 34 := fun written member => (each written member).clean
  refine ⟨?_, ?_, ?_, ?_⟩
  · intro byte member
    rcases List.mem_append.mp member with before | behind
    · exact quiet.unbroken byte before
    · obtain ⟨written, inside, here⟩ := List.mem_flatMap.mp behind
      exact (each written inside).unbroken byte here
  · rw [List.count_append, List.count_eq_zero.mpr quiet.notMem, count_fields clean, Nat.zero_add, List.length_map]
  · rw [List.map_map]
    exact map_quotations_fields quiet.notMem clean fun _ _ _ => rfl
  · intro named
    rw [List.map_map]
    apply map_quotations_fields quiet.notMem clean
    intro written member before
    apply nameAtEnd_text
    rw [(each written member).front, nameText, if_pos named]
    exact List.suffix_append _ _

theorem oneLine_none (log : RPCLog) (fields : List (FieldName × Bytes)) : log.OneLine fields ⟨none, none⟩ := by
  constructor
  · intro priority text written
    cases written
  · intro fp text written
    cases written

section
variable {entry : Entry} (ip : Printable entry.ip) (module : Printable entry.module)
  (separator : Quiet log.standardLogSeparator) (buffer : Bytes)
include ip module separator

theorem tells_logLine {front : Bytes} (quiet : Quiet front) :
    log.Tells (front ++ log.logLine entry buffer) (log.fields entry buffer) := by
  rw [logLine_eq (safe_logged ip module), fields_eq]
  exact tells_of_fits quiet (fits_writtenFields (safe_logged ip module) separator buffer)

/-- Nothing is cut off where no separator holds a null. -/
theorem cStr_logLine (absent : 0 ∉ log.standardLogSeparator) :
    cStr (log.logLine entry buffer) = log.logLine entry buffer := by
  apply takeWhile_safe
  rw [logLine_eq (safe_logged ip module)]
  intro member
  obtain ⟨written, inside, here⟩ := List.mem_flatMap.mp member
  exact (fits_writtenFields (safe_logged ip module) separator buffer written inside).ended absent here

theorem reports_logLine {front : Bytes} (quiet : Quiet front) :
    log.Reports (front ++ cStr (log.logLine entry buffer)) (log.fields entry buffer) := by
  have tells := tells_logLine ip module separator buffer quiet
  have cut : front ++ cStr (log.logLine entry buffer) <+: front ++ log.logLine entry buffer :=
    (List.prefix_append_right_inj front).mpr (List.takeWhile_prefix _)
  refine ⟨fun byte member => tells.unbroken byte (cut.subset member), ?_, ?_⟩
  · obtain ⟨rest, whole⟩ := cut
    rw [← tells.values, ← whole]
    exact insides_append _ rest
  · intro absent
    rw [cStr_logLine ip module separator buffer absent]
    exact tells

theorem printStandardLog_oneLine (tmp : Tm) (gmtoff : Int) (logSeverity : ELogLevels) (fp : File) (color : ELogColors)
    {logLevelText : Bytes} (level : Quiet logLevelText) :
    log.OneLine (log.fields entry buffer)
      (log.printStandardLog tmp gmtoff logSeverity fp entry buffer color logLevelText) := by
  unfold printStandardLog
  split
  case isTrue => exact oneLine_none log _
  case isFalse =>
    constructor
    · intro priority text written
      dsimp only at written
      split at written
      case isTrue =>
        obtain ⟨_, _, same⟩ := Option.map_eq_some_iff.mp written
        rw [← (Prod.mk.inj same).2]
        exact reports_logLine ip module separator buffer .nil
      case isFalse => cases written
    · intro fp text written
      dsimp only at written
      split at written
      case isTrue =>
        obtain rfl := (Prod.mk.inj (Option.some.inj written)).2
        have front := quiet_printedFront separator tmp gmtoff color level
        exact ⟨_, rfl, reports_logLine ip module separator buffer front⟩
      case isFalse => cases written

end

theorem isSome_printed (tmp : Tm) (gmtoff : Int) (logSeverity : ELogLevels) (fp : File) (entry : Entry)
    (buffer : Bytes) (color : ELogColors) (logLevelText : Bytes) :
    (log.printStandardLog tmp gmtoff logSeverity fp entry buffer color logLevelText).printed.isSome =
      (entry.module ∉ log.modulesOutputExclusion && log.isUsingStandardLog) := by
  unfold printStandardLog
  split
  case isTrue excluded => simp only [excluded, not_true_eq_false, decide_false, Bool.false_and, Option.isSome_none]
  case isFalse shown =>
    dsimp only
    split
    case isTrue used => simp only [used, Option.isSome_some, shown, not_false_eq_true, decide_true, Bool.and_self]
    case isFalse unused => simp only [unused, Option.isSome_none, Bool.and_false]

/-- Whatever the strings and the text of a message are, the line tells its fields, and a call that is logged writes
one line. -/
theorem logVA_oneLine {entry : Entry} (ip : Printable entry.ip) (module : Printable entry.module)
    (separator : Quiet log.standardLogSeparator) (tmp : Tm) (gmtoff : Int) (logSeverity : ELogLevels)
    (outSize : UInt32) (formatted leftover : Bytes) :
    let buffer := vsnprintf outSize formatted leftover
    let output := log.logVA tmp gmtoff logSeverity entry outSize formatted leftover
    log.Tells (log.logLine entry buffer) (log.fields entry buffer) ∧ log.OneLine (log.fields entry buffer) output ∧
      output.printed.isSome = (log.isLogged logSeverity entry.module && log.isUsingStandardLog) := by
  intro buffer output
  have line := printStandardLog_oneLine ip module separator buffer tmp gmtoff logSeverity
  refine ⟨tells_logLine ip module separator buffer .nil, ?_, ?_⟩
  · change log.OneLine _ (log.logVA tmp gmtoff logSeverity entry outSize formatted leftover)
    unfold logVA
    cases logSeverity with
    | levelAll => exact oneLine_none log _
    | levelInfo | levelWarn | levelCritical | levelErr => exact line _ _ (.of_safe rfl)
    | levelDebug | levelDebug1 =>
      dsimp only
      split
      case isTrue => exact line _ _ (.of_safe rfl)
      case isFalse => exact oneLine_none log _
  · change (log.logVA tmp gmtoff logSeverity entry outSize formatted leftover).printed.isSome = _
    unfold logVA isLogged
    cases logSeverity with
    | levelAll => simp only [Option.isSome_none, Bool.and_false, Bool.false_and]
    | levelInfo | levelWarn | levelCritical | levelErr => simp only [isSome_printed, Bool.and_true]
    | levelDebug | levelDebug1 =>
      cases debugging : log.debug with
      | false => simp only [Bool.false_eq_true, if_false, Option.isSome_none, Bool.and_false, Bool.false_and]
      | true => simp only [if_true, isSome_printed, Bool.and_true]

/-- A user name that is to pass for two lines. -/
theorem logVA_oneLine_forged :
    let entry : Entry := ⟨ascii "10.0.0.1", [], [34, 10, 34], [], ascii "CORE"⟩
    let output := (new 2).logVA ⟨124, 0, 1, 0, 0, 0⟩ 0 .levelInfo entry 64 (ascii "done") []
    (new 2).OneLine ((new 2).fields entry (ascii "done")) output := by
  intro entry output
  have ip : Printable (ascii "10.0.0.1") := by
    unfold Printable
    decide
  have module : Printable (ascii "CORE") := by
    unfold Printable
    decide
  have separator : Quiet (ascii " ") := .of_safe rfl
  exact (@logVA_oneLine (new 2) entry ip module separator ⟨124, 0, 1, 0, 0, 0⟩ 0 .levelInfo 64 (ascii "done") []).2.1

end

end RPCLog

end Mantids.Program
