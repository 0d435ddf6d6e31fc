import Mantids.Memory.Reader
import Mantids.Protocols.UrlGrammar

/-! When the parser of URL-formatted variables reads what its input means. -/

set_option autoImplicit false

namespace Mantids.HTTP

open Memory Memory.Streams Library

namespace UrlVars

/-- The byte ends a name or a value. -/
def ends (currentStat : UrlVarStat) (byte : UInt8) : Bool :=
  byte = ampersand || (currentStat = .waitingName && byte = equalsSign)

/-- What is waited for, and how many bytes of it are there. -/
abbrev Place := UrlVarStat × Nat

def advance (place : Place) (byte : UInt8) : Place :=
  if ends place.1 byte then
    (if place.1 = .waitingName ∧ byte = equalsSign then .waitingContent else .waitingName, 0)
  else (place.1, place.2 + 1)

/-- A write from this place with `turns` turns left: names and values are not too long and not too many,
no equals sign of the same write comes, within the size of a name, behind an ampersand that ends a name,
and what an equals sign or a value ends is not empty. -/
def Fits : (turns : Nat) → Place → Bytes → Prop
  | _, _, [] => True
  | turns, place, byte :: rest =>
    0 < turns ∧ place.2 < maxObjectSize ∧
      (place.1 = .waitingName → byte = ampersand → equalsSign ∉ rest.take (maxObjectSize - (place.2 + 1))) ∧
      (ends place.1 byte = true → place.2 = 0 → place.1 = .waitingName ∧ byte = ampersand) ∧
      Fits (if ends place.1 byte then turns - 1 else turns) (advance place byte) rest

/-- The writes fit one after the other, and the stream does not end before a value. -/
def FitsAll : Place → List Bytes → Prop
  | place, [] => place ≠ (.waitingContent, 0)
  | place, buf :: later => Fits (protocol.maxTTL + 1) place buf ∧ FitsAll (buf.foldl advance place) later

instance Fits.decidable : (turns : Nat) → (place : Place) → (buf : Bytes) → Decidable (Fits turns place buf)
  | _, _, [] => isTrue trivial
  | turns, place, byte :: rest =>
    have := Fits.decidable (if ends place.1 byte then turns - 1 else turns) (advance place byte) rest
    inferInstanceAs (Decidable (_ ∧ _ ∧ _ ∧ _ ∧ _))

instance FitsAll.decidable : (place : Place) → (writes : List Bytes) → Decidable (FitsAll place writes)
  | place, [] => inferInstanceAs (Decidable (place ≠ (.waitingContent, 0)))
  | place, buf :: later =>
    have := FitsAll.decidable (buf.foldl advance place) later
    inferInstanceAs (Decidable (_ ∧ _))

/-! ## Places -/

section
variable {currentStat : UrlVarStat} {before : Bytes}

@[simp] theorem ends_ampersand (currentStat : UrlVarStat) : ends currentStat ampersand = true := rfl

@[simp] theorem ends_equalsSign : ends .waitingName equalsSign = true := rfl

theorem not_ends_iff {byte : UInt8} : ends currentStat byte = false ↔
    byte ≠ ampersand ∧ (currentStat = .waitingName → byte ≠ equalsSign) := by
  simp [ends]

theorem plain_iff : (∀ byte ∈ before, ends currentStat byte = false) ↔
    ampersand ∉ before ∧ (currentStat = .waitingName → equalsSign ∉ before) := by
  simp only [not_ends_iff]
  constructor
  · intro plain
    exact ⟨fun member => (plain _ member).1 rfl, fun stat member => (plain _ member).2 stat rfl⟩
  · rintro ⟨first, second⟩ byte member
    refine ⟨?_, fun stat => ?_⟩
    · rintro rfl
      exact first member
    · rintro rfl
      exact second stat member

variable (plain : ∀ byte ∈ before, ends currentStat byte = false)
include plain

theorem foldl_advance_plain (held : Nat) :
    before.foldl advance (currentStat, held) = (currentStat, held + before.length) := by
  induction before generalizing held with
  | nil => rfl
  | cons byte before ih =>
    rw [List.forall_mem_cons] at plain
    rw [List.foldl_cons, advance, plain.1, if_neg Bool.false_ne_true, ih plain.2, List.length_cons]
    simp only [Prod.mk.injEq, true_and]
    omega

theorem fits_plain (turns held : Nat) :
    Fits turns (currentStat, held) before ↔ before = [] ∨ (0 < turns ∧ held + before.length ≤ maxObjectSize) := by
  induction before generalizing held with
  | nil => simp [Fits]
  | cons byte before ih =>
    rw [List.forall_mem_cons] at plain
    obtain ⟨here, later⟩ := plain
    have other := (not_ends_iff.mp here).1
    simp only [Fits, here, Bool.false_eq_true, if_false, advance, ih later, List.length_cons, other, false_implies,
      implies_true, true_and, reduceCtorEq, false_or]
    rcases before with _ | ⟨next, before⟩
    · simp only [List.length_nil, true_or, and_true]
      omega
    · simp only [reduceCtorEq, false_or, List.length_cons]
      omega

theorem fits_piece {byte : UInt8} (ender : ends currentStat byte = true) (turns held : Nat) (rest : Bytes) :
    Fits turns (currentStat, held) (before ++ byte :: rest) ↔
      0 < turns ∧ held + before.length < maxObjectSize ∧
        (currentStat = .waitingName → byte = ampersand →
          equalsSign ∉ rest.take (maxObjectSize - (held + before.length + 1))) ∧
        (held + before.length = 0 → currentStat = .waitingName ∧ byte = ampersand) ∧
        Fits (turns - 1) (advance (currentStat, 0) byte) rest := by
  induction before generalizing held with
  | nil =>
    have same : advance (currentStat, held) byte = advance (currentStat, 0) byte := by
      simp only [advance, ender, if_true]
    simp only [List.nil_append, Fits, ender, if_true, same, List.length_nil, Nat.add_zero, true_implies]
  | cons first before ih =>
    rw [List.forall_mem_cons] at plain
    obtain ⟨here, later⟩ := plain
    have other := (not_ends_iff.mp here).1
    have count : held + 1 + before.length = held + (before.length + 1) := by omega
    simp only [List.cons_append, Fits, here, Bool.false_eq_true, if_false, advance, List.length_cons, other,
      false_implies, implies_true, true_and]
    rw [ih later, count]
    constructor
    · rintro ⟨_, _, left⟩
      exact left
    · intro left
      exact ⟨left.1, by omega, left⟩

theorem foldl_advance_piece {byte : UInt8} (ender : ends currentStat byte = true) (held : Nat) (rest : Bytes) :
    (before ++ byte :: rest).foldl advance (currentStat, held) =
      rest.foldl advance (advance (currentStat, 0) byte) := by
  have same : ∀ held, advance (currentStat, held) byte = advance (currentStat, 0) byte := by
    intro held
    simp only [advance, ender, if_true]
  rw [List.foldl_append, foldl_advance_plain plain, List.foldl_cons, same]

end

/-! ## What is found in the bytes that wait -/

/-- What a sub parser for names or values makes of a stream. -/
inductive Piece (currentStat : UrlVarStat) (stream : Bytes) : Option Element → Prop where
  | held (plain : ∀ byte ∈ stream.take maxObjectSize, ends currentStat byte = false) : Piece currentStat stream none
  | ended {part rest : Bytes} {byte : UInt8} (whole : stream = part ++ byte :: rest)
      (short : part.length < maxObjectSize) (plain : ∀ byte ∈ part, ends currentStat byte = false)
      (ender : ends currentStat byte = true)
      (alone : currentStat = .waitingName → byte = ampersand →
        equalsSign ∉ rest.take (maxObjectSize - (part.length + 1))) :
      Piece currentStat stream (some ⟨part, some [byte], part.length + 1⟩)
  | merged {part rest : Bytes} (name : currentStat = .waitingName) (whole : stream = part ++ equalsSign :: rest)
      (short : part.length < maxObjectSize) (plain : equalsSign ∉ part) (merged : ampersand ∈ part) :
      Piece currentStat stream (some ⟨part, some [equalsSign], part.length + 1⟩)

section
variable {stream : Bytes}

theorem firstListed_values : firstListed [[ampersand]] stream =
    (occurrence [ampersand] stream).map fun pos => (pos, [ampersand]) := by
  simp only [firstListed, List.findSome?_cons, List.findSome?_nil]
  cases occurrence [ampersand] stream <;> rfl

theorem firstListed_names : firstListed [[equalsSign], [ampersand]] stream =
    ((occurrence [equalsSign] stream).map fun pos => (pos, [equalsSign])).or
      ((occurrence [ampersand] stream).map fun pos => (pos, [ampersand])) := by
  simp only [firstListed, List.findSome?_cons, List.findSome?_nil]
  cases occurrence [equalsSign] stream <;> cases occurrence [ampersand] stream <;> rfl

/-- Where a byte is in the first bytes of a stream, it is there for the first time. -/
theorem exists_first {byte : UInt8} {n : Nat} (member : byte ∈ stream.take n) :
    ∃ part rest, stream = part ++ byte :: rest ∧ byte ∉ part ∧ part.length < n ∧
      stream.take n = part ++ byte :: rest.take (n - (part.length + 1)) ∧
      occurrence [byte] (stream.take n) = some part.length := by
  obtain ⟨part, left, split, absent⟩ := List.eq_append_cons_of_mem member
  have length := congrArg List.length split
  have bound := List.length_take_le n stream
  rw [List.length_append, List.length_cons] at length
  have whole : stream = part ++ byte :: (left ++ stream.drop n) := by
    rw [← List.cons_append, ← List.append_assoc, ← split, List.take_append_drop]
  have found := occurrence_singleton absent left
  rw [← split] at found
  refine ⟨part, left ++ stream.drop n, whole, absent, by omega, ?_, found⟩
  have short : (part ++ [byte]).length ≤ n := by
    rw [List.length_append, List.length_singleton]
    omega
  conv_lhs => rw [whole, ← List.singleton_append, ← List.append_assoc, List.take_append,
    List.take_of_length_le short, List.length_append, List.length_singleton, List.append_assoc, List.singleton_append]

theorem piece_values (stream : Bytes) :
    Piece .waitingContent stream ((settings .waitingContent).listedElement stream) := by
  simp only [Settings.listedElement, Settings.listed, settings, firstListed_values, Option.map_map]
  by_cases member : ampersand ∈ stream.take maxObjectSize
  · obtain ⟨part, rest, whole, absent, short, _, found⟩ := exists_first member
    rw [found, Option.map_some]
    have same : stream.take part.length = part := by
      rw [whole, List.take_left' rfl]
    simp only [Function.comp, Found.element, same, List.length_singleton]
    apply Piece.ended whole short
    case plain => exact plain_iff.mpr ⟨absent, (fun impossible => by cases impossible)⟩
    case ender => rfl
    case alone => exact fun impossible => by cases impossible
  · rw [occurrence_singleton_of_notMem member]
    exact .held (plain_iff.mpr ⟨member, (fun impossible => by cases impossible)⟩)

/-- Of the delimiters of a name the equals sign is found first, wherever it is. -/
theorem piece_names (stream : Bytes) : Piece .waitingName stream ((settings .waitingName).listedElement stream) := by
  simp only [Settings.listedElement, Settings.listed, settings, firstListed_names]
  by_cases assigned : equalsSign ∈ stream.take maxObjectSize
  · obtain ⟨part, rest, whole, absent, short, _, found⟩ := exists_first assigned
    have same : stream.take part.length = part := by
      rw [whole, List.take_left' rfl]
    simp only [found, Option.map_some, Option.some_or, Found.element, same, List.length_singleton]
    by_cases merged : ampersand ∈ part
    · exact .merged rfl whole short absent merged
    · apply Piece.ended whole short
      case plain => exact plain_iff.mpr ⟨merged, fun _ => absent⟩
      case ender => rfl
      case alone => exact fun _ other => absurd other (by decide)
  · simp only [occurrence_singleton_of_notMem assigned, Option.map_none, Option.none_or]
    by_cases member : ampersand ∈ stream.take maxObjectSize
    · obtain ⟨part, rest, whole, absent, short, window, found⟩ := exists_first member
      have same : stream.take part.length = part := by
        rw [whole, List.take_left' rfl]
      rw [window, List.mem_append, List.mem_cons, not_or, not_or] at assigned
      simp only [found, Option.map_some, Found.element, same, List.length_singleton]
      apply Piece.ended whole short
      case plain => exact plain_iff.mpr ⟨absent, fun _ => assigned.1⟩
      case ender => rfl
      case alone => exact fun _ _ => assigned.2.2
    · simp only [occurrence_singleton_of_notMem member, Option.map_none]
      exact .held (plain_iff.mpr ⟨member, fun _ => assigned⟩)

theorem piece_listed (currentStat : UrlVarStat) (stream : Bytes) :
    Piece currentStat stream ((settings currentStat).listedElement stream) := by
  cases currentStat with
  | waitingName => exact piece_names stream
  | waitingContent => exact piece_values stream

end

/-! ## Where a reader stands -/

def waitedFor : Option Bytes → UrlVarStat
  | none => .waitingName
  | some _ => .waitingContent

theorem waitedFor_eq_name {varName : Option Bytes} : waitedFor varName = .waitingName ↔ varName = none := by
  cases varName <;> simp [waitedFor]

/-- What is stored, which variable the value is waited for, and the bytes that wait. -/
structure Standing where
  varName : Option Bytes
  vars : Vars
  pending : Bytes
  plain : ∀ byte ∈ pending, ends (waitedFor varName) byte = false
  short : pending.length ≤ maxObjectSize
  current : ∀ name, varName = some name → name ≠ []
  named : AllNamed vars

structure At (reader : Reader UrlVars) (s : Standing) : Prop where
  settings : reader.settings = settings (waitedFor s.varName)
  currentStat : reader.user.currentStat = waitedFor s.varName
  currentVarName : ∀ name, s.varName = some name → reader.user.currentVarName = name
  vars : reader.user.vars = s.vars
  pending : reader.pending = s.pending

namespace Standing

def place (s : Standing) : Place := (waitedFor s.varName, s.pending.length)

theorem place_eq (s : Standing) : s.place = (waitedFor s.varName, s.pending.length) := rfl

/-- What it comes to if the rest of the string is taken for what it means. -/
def following (s : Standing) (rest : Bytes) : Vars := Vars.following s.varName s.vars (s.pending ++ rest)

def Reads (s : Standing) (rest : Bytes) (final : Vars) : Prop := HTTP.Reads s.varName s.vars (s.pending ++ rest) final

def start : Standing where
  varName := none
  vars := .empty
  pending := []
  plain := nofun
  short := Nat.zero_le _
  current := nofun
  named := nofun

def hold (s : Standing) (pending : Bytes) (plain : ∀ byte ∈ pending, ends (waitedFor s.varName) byte = false)
    (short : pending.length ≤ maxObjectSize) : Standing :=
  { s with pending := pending, plain := plain, short := short }

/-- With nothing of the name or the value there. -/
def clear (s : Standing) : Standing := s.hold [] nofun (Nat.zero_le _)

theorem place_clear (s : Standing) : s.clear.place = (waitedFor s.varName, 0) := rfl

/-- The name has ended, and its value is waited for. -/
def assign (s : Standing) {part : Bytes} (filled : part ≠ []) : Standing where
  varName := some (Decoders.URL.decodeURLStr part)
  vars := s.vars
  pending := []
  plain := nofun
  short := Nat.zero_le _
  current := by
    intro name same
    cases same
    exact Decoders.URL.decodeURLStr_ne_nil filled
  named := s.named

/-- A variable is stored, and a name is waited for. -/
def store (s : Standing) {name : Bytes} (filled : name ≠ []) (value : Bytes) : Standing where
  varName := none
  vars := s.vars.insert (toUpper name) value
  pending := []
  plain := nofun
  short := Nat.zero_le _
  current := nofun
  named := allNamed_insert s.named filled value

end Standing

theorem at_start : At ⟨settings .waitingName, [], new⟩ .start := ⟨rfl, rfl, nofun, rfl, rfl⟩

section
variable {reader : Reader UrlVars} {s : Standing} (here : At reader s)
include here

/-- Nothing is parsed of an empty part. -/
theorem next_empty {part : Bytes} (nothing : part = []) (delimiterFound : Option Bytes) :
    (protocol.next reader (.element part delimiterFound)).1 = .open ∧
      At (protocol.next reader (.element part delimiterFound)).2 s.clear := by
  subst nothing
  exact ⟨rfl, here.settings, here.currentStat, here.currentVarName, here.vars, rfl⟩

variable {part : Bytes} (filled : part ≠ [])
include filled

theorem next_assign (name : s.varName = none) :
    (protocol.next reader (.element part (some [equalsSign]))).1 = .open ∧
      At (protocol.next reader (.element part (some [equalsSign]))).2 (s.assign filled) := by
  have stat := here.currentStat
  rw [name] at stat
  simp only [Protocol.next, Protocol.read, protocol, parse, filled, if_false, Protocol.turn, changeToNextParser, stat,
    waitedFor, Option.getD_some]
  rw [if_neg (by decide)]
  refine ⟨rfl, rfl, rfl, ?_, here.vars, rfl⟩
  intro name same
  cases same
  rfl

theorem next_name (name : s.varName = none) {delimiter : Bytes} (ends : delimiter = [ampersand] ∨ delimiter = []) :
    (protocol.next reader (.element part (some delimiter))).1 = .open ∧
      At (protocol.next reader (.element part (some delimiter))).2
        (s.store (Decoders.URL.decodeURLStr_ne_nil filled) []) := by
  have stat := here.currentStat
  rw [name] at stat
  simp only [Protocol.next, Protocol.read, protocol, parse, filled, if_false, Protocol.turn, changeToNextParser, stat,
    waitedFor, Option.getD_some]
  rw [if_pos ends, addVar, if_neg (Decoders.URL.decodeURLStr_ne_nil filled)]
  exact ⟨rfl, rfl, rfl, (fun _ waits => by cases waits), congrArg (Multimap.insert _ _) here.vars, rfl⟩

theorem next_value {name : Bytes} (waits : s.varName = some name) (delimiterFound : Option Bytes) :
    (protocol.next reader (.element part delimiterFound)).1 = .open ∧
      At (protocol.next reader (.element part delimiterFound)).2
        (s.store (s.current name waits) (Decoders.URL.decodeURLStr part)) := by
  have stat := here.currentStat
  have same := here.currentVarName name waits
  rw [waits] at stat
  simp only [Protocol.next, Protocol.read, protocol, parse, filled, if_false, Protocol.turn, changeToNextParser, stat,
    waitedFor, same]
  rw [addVar, if_neg (s.current name waits)]
  exact ⟨trivial, rfl, rfl, (fun _ waits => by cases waits), congrArg (Multimap.insert _ _) here.vars, rfl⟩

end

/-! ## One write -/

/-- The bytes lead from one place to another. Where they fit, what is to come of the string stays the
same, and where they do not, no reading of the rest makes up for it. -/
structure Leads (s : Standing) (buf : Bytes) (s' : Standing) (fits : Prop) : Prop where
  place : fits → s'.place = buf.foldl advance s.place
  following : fits → ∀ rest, s'.following rest = s.following (buf ++ rest)
  reads : ∀ {rest final}, s'.Reads rest final → s.Reads (buf ++ rest) final
  missed : ¬fits → ∀ {rest final}, s'.Reads rest final → final ≠ s.following (buf ++ rest)

theorem Leads.refl (s : Standing) : Leads s [] s True where
  place := fun _ => rfl
  following := fun _ _ => rfl
  reads := id
  missed := fun unfit => absurd trivial unfit

theorem Leads.trans {s s' s'' : Standing} {buf later : Bytes} {fits fits' both : Prop} (first : Leads s buf s' fits)
    (second : Leads s' later s'' fits') (iff : both ↔ fits ∧ fits') : Leads s (buf ++ later) s'' both where
  place := by
    intro fit
    obtain ⟨fit, fit'⟩ := iff.mp fit
    rw [second.place fit', first.place fit, List.foldl_append]
  following := by
    intro fit rest
    obtain ⟨fit, fit'⟩ := iff.mp fit
    rw [second.following fit', first.following fit, List.append_assoc]
  reads := by
    intro rest final reads
    rw [List.append_assoc]
    exact first.reads (second.reads reads)
  missed := by
    intro unfit rest final reads
    rw [List.append_assoc]
    by_cases fit : fits
    · rw [← first.following fit]
      exact second.missed (fun fit' => unfit (iff.mpr ⟨fit, fit'⟩)) reads
    · exact first.missed fit (second.reads reads)

section
variable {s : Standing} {before : Bytes}

theorem leads_hold (plain : ∀ byte ∈ s.pending ++ before, ends (waitedFor s.varName) byte = false)
    (short : (s.pending ++ before).length ≤ maxObjectSize) :
    Leads s before (s.hold (s.pending ++ before) plain short) True where
  place := by
    intro _
    rw [s.place_eq, foldl_advance_plain fun byte member => plain byte (List.mem_append_right _ member)]
    rw [← List.length_append]
    rfl
  following := fun _ rest => by
    simp only [Standing.following, Standing.hold, List.append_assoc]
  reads := by
    intro rest final reads
    simpa only [Standing.Reads, Standing.hold, List.append_assoc] using reads
  missed := fun unfit => absurd trivial unfit

/-- Nothing is parsed before an ampersand that ends no value; what ends elsewhere with nothing in it is lost. -/
theorem leads_clear (nothing : s.pending = []) {byte : UInt8} (ender : ends (waitedFor s.varName) byte = true) :
    Leads s [byte] s.clear (s.varName = none ∧ byte = ampersand) := by
  obtain ⟨varName, vars, pending, _, _, _, named⟩ := s
  dsimp only at nothing ender
  subst nothing
  constructor
  case place =>
    rintro ⟨rfl, rfl⟩
    rfl
  case following =>
    rintro ⟨rfl, rfl⟩ rest
    exact (Vars.following_ampersand vars rest).symm
  case reads =>
    intro rest final reads
    cases varName with
    | none =>
      by_cases separator : byte = ampersand
      · rw [separator]
        exact .skip reads
      · have assigns : byte = equalsSign := by simpa [ends, waitedFor, separator] using ender
        rw [assigns]
        exact .skipName reads
    | some name =>
      have separator : byte = ampersand := by simpa [ends, waitedFor] using ender
      rw [separator]
      exact .skip reads
  case missed =>
    intro unfit rest final reads
    cases varName with
    | none =>
      have separator : byte ≠ ampersand := fun same => unfit ⟨rfl, same⟩
      have assigns : byte = equalsSign := by simpa [ends, waitedFor, separator] using ender
      rintro rfl
      -- an empty name is never stored
      have nameless := named_of_allNamed (Reads.allNamed reads named nofun)
      rw [assigns] at nameless
      exact not_named_equalsSign rest nameless
    | some name =>
      have separator : byte = ampersand := by simpa [ends, waitedFor] using ender
      rw [separator]
      exact ne_of_fewer (fewer_of_value reads (pieceCount_ampersand rest).symm (.inr rfl))

variable (filled : s.pending ++ before ≠ []) (short : (s.pending ++ before).length ≤ maxObjectSize)
include filled short

theorem leads_name (name : s.varName = none) (plain : ∀ byte ∈ s.pending ++ before, ends .waitingName byte = false) :
    Leads s (before ++ [ampersand]) (s.store (Decoders.URL.decodeURLStr_ne_nil filled) []) True where
  place := by
    intro _
    rw [s.place_eq, name]
    exact (foldl_advance_piece (fun byte member => plain byte (List.mem_append_right _ member)) (ends_ampersand _) _
      []).symm
  following := by
    intro _ rest
    obtain ⟨noAmpersand, noEqualsSign⟩ := plain_iff.mp plain
    simp only [Standing.following, name, List.append_assoc, List.singleton_append]
    rw [← List.append_assoc, Vars.following_name s.vars filled noAmpersand (noEqualsSign rfl)]
    rfl
  reads := by
    intro rest final reads
    obtain ⟨noAmpersand, noEqualsSign⟩ := plain_iff.mp plain
    simp only [Standing.Reads, name, List.append_assoc, List.singleton_append]
    rw [← List.append_assoc]
    exact .name filled short noAmpersand (noEqualsSign rfl) reads
  missed := fun unfit => absurd trivial unfit

theorem leads_value {name : Bytes} (waits : s.varName = some name)
    (plain : ∀ byte ∈ s.pending ++ before, ends .waitingContent byte = false) :
    Leads s (before ++ [ampersand])
      (s.store (s.current name waits) (Decoders.URL.decodeURLStr (s.pending ++ before))) True where
  place := by
    intro _
    rw [s.place_eq, waits]
    exact (foldl_advance_piece (fun byte member => plain byte (List.mem_append_right _ member)) (ends_ampersand _) _
      []).symm
  following := by
    intro _ rest
    simp only [Standing.following, waits, List.append_assoc, List.singleton_append]
    rw [← List.append_assoc, Vars.following_value s.vars (plain_iff.mp plain).1]
    rfl
  reads := by
    intro rest final reads
    simp only [Standing.Reads, waits, List.append_assoc, List.singleton_append]
    rw [← List.append_assoc]
    exact .value filled short (plain_iff.mp plain).1 reads
  missed := fun unfit => absurd trivial unfit

/-- An ampersand in a name is taken for a part of it. -/
theorem leads_assign (name : s.varName = none) (whole : equalsSign ∉ s.pending ++ before) :
    Leads s (before ++ [equalsSign]) (s.assign filled) (ampersand ∉ s.pending ++ before) where
  place := by
    intro plain
    have all : ∀ byte ∈ before, ends .waitingName byte = false := by
      apply plain_iff.mpr
      exact ⟨fun member => plain (List.mem_append_right _ member),
        fun _ member => whole (List.mem_append_right _ member)⟩
    rw [s.place_eq, name]
    exact (foldl_advance_piece all ends_equalsSign _ []).symm
  following := by
    intro plain rest
    simp only [Standing.following, name, List.append_assoc, List.singleton_append]
    rw [← List.append_assoc, Vars.following_assign s.vars plain whole]
    rfl
  reads := by
    intro rest final reads
    simp only [Standing.Reads, name, List.append_assoc, List.singleton_append]
    rw [← List.append_assoc]
    exact .assign filled short whole reads
  missed := by
    intro merged rest final reads
    simp only [Standing.following, name, List.append_assoc, List.singleton_append]
    rw [← List.append_assoc]
    rintro rfl
    have named := named_of_allNamed (Reads.allNamed (Reads.assign filled short whole reads) s.named nofun)
    rw [← List.singleton_append, ← List.append_assoc] at named
    have later := reads.exact_or_missed (each_append named _)
    exact (missed_merge whole (not_not.mp merged) reads later).ne rfl

end

/-- What a write comes to: it goes through where it fits, and leads on where it goes through. -/
def Fed (turns : Nat) (s : Standing) (buf : Bytes) (fed : Verdict × Reader UrlVars) : Prop :=
  (Fits turns s.place buf → fed.1 = .open) ∧
    (fed.1 = .open → ∃ s', At fed.2 s' ∧ Leads s buf s' (Fits turns s.place buf))

theorem fed_nil {turns : Nat} {reader : Reader UrlVars} {s : Standing} (here : At reader s) :
    Fed turns s [] (.open, reader) :=
  ⟨fun _ => rfl, fun _ => ⟨s, here, by simpa only [Fits] using Leads.refl s⟩⟩

theorem Leads.fed {s s' : Standing} {turns left : Nat} {taken rest : Bytes} {fits : Prop}
    {fed : Verdict × Reader UrlVars} (leads : Leads s taken s' fits) (later : Fed left s' rest fed)
    (iff : Fits turns s.place (taken ++ rest) ↔ fits ∧ Fits left s'.place rest) : Fed turns s (taken ++ rest) fed := by
  obtain ⟨through, goes⟩ := later
  constructor
  · intro fit
    exact through (iff.mp fit).2
  · intro opened
    obtain ⟨s'', there, second⟩ := goes opened
    exact ⟨s'', there, leads.trans second iff⟩

/-- A byte that ends a name or a value is in what is written, behind the bytes that wait. -/
theorem exists_before {s : Standing} {buf part rest : Bytes} {byte : UInt8} (whole : s.pending ++ buf = part ++ byte :: rest)
    (ender : ends (waitedFor s.varName) byte = true) :
    ∃ before, part = s.pending ++ before ∧ buf = before ++ [byte] ++ rest := by
  rcases List.append_eq_append_iff.mp whole with ⟨before, rfl, rfl⟩ | ⟨inside, split, same⟩
  · exact ⟨before, rfl, by rw [List.append_assoc, List.singleton_append]⟩
  · rcases inside with _ | ⟨first, inside⟩
    · refine ⟨[], ?_, ?_⟩
      · rw [split, List.append_nil, List.append_nil]
      · exact same.symm
    · cases same
      have member : byte ∈ s.pending := by
        rw [split]
        exact List.mem_append_right _ (.head _)
      rw [s.plain byte member] at ender
      contradiction

theorem not_fits_exceeded {currentStat : UrlVarStat} {rest : Bytes} {held : Nat} (full : maxObjectSize ≤ held)
    (more : rest ≠ []) (turns : Nat) : ¬Fits turns (currentStat, held) rest := by
  obtain ⟨byte, rest, rfl⟩ := List.exists_cons_of_ne_nil more
  intro fits
  exact Nat.not_lt.mpr full fits.2.1

/-- A full buffer with nothing to find in it refuses what comes. -/
theorem not_fits_full {currentStat : UrlVarStat} {before rest : Bytes} {held : Nat}
    (plain : ∀ byte ∈ before, ends currentStat byte = false) (full : maxObjectSize ≤ held + before.length)
    (more : rest ≠ []) (turns : Nat) : ¬Fits turns (currentStat, held) (before ++ rest) := by
  induction before generalizing held with
  | nil => exact not_fits_exceeded full more turns
  | cons byte before ih =>
    rw [List.forall_mem_cons] at plain
    intro fits
    have later := fits.2.2.2.2
    simp only [advance, plain.1, Bool.false_eq_true, if_false] at later
    rw [List.length_cons] at full
    have still : maxObjectSize ≤ held + 1 + before.length := by omega
    exact ih plain.2 still later

section
variable {s : Standing} {before rest : Bytes}

/-- A name or a value ends in the bytes. -/
theorem fits_ended (turns : Nat) {byte : UInt8} (plain : ∀ byte ∈ before, ends (waitedFor s.varName) byte = false)
    (ender : ends (waitedFor s.varName) byte = true) (short : (s.pending ++ before).length < maxObjectSize)
    (alone : waitedFor s.varName = .waitingName → byte = ampersand →
      equalsSign ∉ rest.take (maxObjectSize - ((s.pending ++ before).length + 1))) :
    Fits (turns + 1) s.place (before ++ [byte] ++ rest) ↔
      (s.pending ++ before = [] → waitedFor s.varName = .waitingName ∧ byte = ampersand) ∧
        Fits turns (advance (waitedFor s.varName, 0) byte) rest := by
  rw [List.length_append] at short alone
  rw [List.append_assoc, List.singleton_append, s.place_eq, fits_piece plain ender, ← List.length_append,
    List.length_eq_zero_iff]
  rw [List.length_append]
  simp only [Nat.zero_lt_succ, short, true_and, Nat.add_sub_cancel]
  exact ⟨fun fits => fits.2, fun fits => ⟨alone, fits⟩⟩

/-- An equals sign comes behind an ampersand that ends a name. -/
theorem not_fits_merged (turns : Nat) (name : s.varName = none) (whole : equalsSign ∉ s.pending ++ before)
    (merged : ampersand ∈ s.pending ++ before) (short : (s.pending ++ before).length < maxObjectSize) :
    ¬Fits turns s.place (before ++ [equalsSign] ++ rest) := by
  have inside : ampersand ∈ before := by
    rcases List.mem_append.mp merged with old | new
    · have plain := s.plain _ old
      rw [ends_ampersand] at plain
      contradiction
    · exact new
  obtain ⟨first, later, rfl, absent⟩ := List.eq_append_cons_of_mem inside
  have plain : ∀ byte ∈ first, ends .waitingName byte = false := by
    apply plain_iff.mpr
    refine ⟨absent, fun _ member => whole ?_⟩
    exact List.mem_append_right _ (List.mem_append_left _ member)
  rw [s.place_eq, name]
  simp only [List.append_assoc, List.cons_append, List.nil_append]
  intro fits
  have alone := ((fits_piece plain (ends_ampersand _) _ _ _).mp fits).2.2.1 rfl rfl
  apply alone
  simp only [List.length_append, List.length_cons] at short
  rw [List.mem_take_iff_getElem]
  refine ⟨later.length, ?_, ?_⟩
  · simp only [List.length_append, List.length_cons]
    omega
  · rw [List.getElem_append_right (Nat.le_refl _)]
    simp

end

/-- What of the write fits in the buffer waits. -/
theorem feed_held {turns : Nat} {reader : Reader UrlVars} {s : Standing} {buf : Bytes} (here : At reader s)
    (goes : ∀ {next : Reader UrlVars} {s' : Standing} (rest : Bytes), At next s' →
      Fed turns s' rest (if rest ≠ [] then protocol.feed turns next rest else (.open, next)))
    (filled : buf ≠ []) (listed : (settings (waitedFor s.varName)).listedElement (s.pending ++ buf) = none)
    (plain : ∀ byte ∈ (s.pending ++ buf).take maxObjectSize, ends (waitedFor s.varName) byte = false) :
    Fed (turns + 1) s buf (protocol.feed (turns + 1) reader buf) := by
  have target : (settings (waitedFor s.varName)).parseDataTargetSize = maxObjectSize := rfl
  simp only [Protocol.feed, here.settings, here.pending, listed, target]
  by_cases full : maxObjectSize ≤ s.pending.length
  · rw [if_pos full]
    constructor
    · intro fits
      exact absurd fits (not_fits_exceeded full filled _)
    · exact fun impossible => by cases impossible
  · rw [if_neg full]
    have parts := List.take_append_drop (maxObjectSize - s.pending.length) buf
    have whole : (s.pending ++ buf).take maxObjectSize = s.pending ++ buf.take (maxObjectSize - s.pending.length) := by
      rw [List.take_append, List.take_of_length_le (Nat.le_of_not_le full)]
    have left : (s.pending ++ buf).drop maxObjectSize = buf.drop (maxObjectSize - s.pending.length) := by
      rw [List.drop_append, List.drop_of_length_le (Nat.le_of_not_le full), List.nil_append]
    have short : (s.pending ++ buf.take (maxObjectSize - s.pending.length)).length ≤ maxObjectSize := by
      rw [← whole]
      exact List.length_take_le _ _
    rw [whole] at plain
    rw [whole, left]
    have reach : buf.drop (maxObjectSize - s.pending.length) ≠ [] →
        maxObjectSize ≤ s.pending.length + (buf.take (maxObjectSize - s.pending.length)).length := by
      intro more
      rw [ne_eq, List.drop_eq_nil_iff] at more
      rw [List.length_take]
      omega
    generalize buf.take (maxObjectSize - s.pending.length) = before at parts plain short reach
    generalize buf.drop (maxObjectSize - s.pending.length) = rest at parts reach
    subst parts
    have there : At ⟨settings (waitedFor s.varName), s.pending ++ before, reader.user⟩
        (s.hold (s.pending ++ before) plain short) :=
      ⟨rfl, here.currentStat, here.currentVarName, here.vars, rfl⟩
    apply (leads_hold plain short).fed (goes rest there)
    have plainBefore : ∀ byte ∈ before, ends (waitedFor s.varName) byte = false :=
      fun byte member => plain byte (List.mem_append_right _ member)
    by_cases beyond : rest = []
    · rw [List.length_append] at short
      rw [beyond, List.append_nil, s.place_eq, fits_plain plainBefore]
      simp only [Fits, and_self, iff_true]
      exact .inr ⟨Nat.zero_lt_succ _, short⟩
    · -- the buffer is full and the next turn fails
      have reached := reach beyond
      constructor
      · intro fits
        exact absurd fits (not_fits_full plainBefore reached beyond _)
      · rintro ⟨_, fits⟩
        rw [← List.length_append] at reached
        exact absurd fits (not_fits_exceeded reached beyond _)

theorem feed_element (turns : Nat) {reader : Reader UrlVars} {s : Standing} (here : At reader s)
    {before rest : Bytes} {byte : UInt8}
    (listed : (settings (waitedFor s.varName)).listedElement (s.pending ++ (before ++ [byte] ++ rest)) =
      some ⟨s.pending ++ before, some [byte], (s.pending ++ before).length + 1⟩)
    (opened : (protocol.next reader (.element (s.pending ++ before) (some [byte]))).1 = .open) :
    protocol.feed (turns + 1) reader (before ++ [byte] ++ rest) =
      if rest ≠ [] then protocol.feed turns (protocol.next reader (.element (s.pending ++ before) (some [byte]))).2 rest
      else (.open, (protocol.next reader (.element (s.pending ++ before) (some [byte]))).2) := by
  have left : (s.pending ++ (before ++ [byte] ++ rest)).drop ((s.pending ++ before).length + 1) = rest := by
    rw [← List.append_assoc, ← List.append_assoc]
    apply List.drop_left'
    rw [List.length_append, List.length_singleton]
  simp only [Protocol.feed, here.settings, here.pending, listed, Element.presented, left, opened, true_and]

/-- The turns that a write takes are those that its names and values take, one more if the last has not ended. -/
theorem feed_fed (turns : Nat) {reader : Reader UrlVars} {s : Standing} (here : At reader s) {buf : Bytes}
    (filled : buf ≠ []) : Fed turns s buf (protocol.feed turns reader buf) := by
  induction turns generalizing reader s buf with
  | zero =>
    obtain ⟨byte, rest, rfl⟩ := List.exists_cons_of_ne_nil filled
    constructor
    · intro fits
      exact absurd fits.1 (Nat.lt_irrefl 0)
    · exact nofun
  | succ turns ih =>
    have goes : ∀ {next : Reader UrlVars} {s' : Standing} (rest : Bytes), At next s' →
        Fed turns s' rest (if rest ≠ [] then protocol.feed turns next rest else (.open, next)) := by
      intro next s' rest there
      by_cases beyond : rest = []
      · rw [if_neg (not_not.mpr beyond), beyond]
        exact fed_nil there
      · rw [if_pos beyond]
        exact ih there beyond
    have piece := piece_listed (waitedFor s.varName) (s.pending ++ buf)
    generalize listed : (settings (waitedFor s.varName)).listedElement (s.pending ++ buf) = found at piece
    cases piece with
    | held plain => exact feed_held here goes filled listed plain
    | @ended part rest byte whole short plain ender alone =>
      obtain ⟨before, rfl, rfl⟩ := exists_before whole ender
      have fits := fits_ended turns (fun byte member => plain byte (List.mem_append_right _ member)) ender
        short alone
      by_cases nothing : s.pending ++ before = []
      · obtain ⟨empty, rfl⟩ := List.append_eq_nil_iff.mp nothing
        have read := next_empty here nothing (some [byte])
        rw [feed_element turns here listed read.1]
        apply (leads_clear empty ender).fed (goes rest read.2)
        apply fits.trans
        constructor
        · rintro ⟨passes, later⟩
          obtain ⟨waits, rfl⟩ := passes nothing
          have name := waitedFor_eq_name.mp waits
          rw [name] at later
          exact ⟨⟨name, rfl⟩, by rwa [Standing.place_clear, name]⟩
        · rintro ⟨⟨name, rfl⟩, later⟩
          rw [Standing.place_clear, name] at later
          rw [name]
          exact ⟨fun _ => ⟨rfl, rfl⟩, later⟩
      · simp only [nothing, false_implies, true_and] at fits
        cases name : s.varName with
        | none =>
          rw [name] at fits ender plain
          rcases Decidable.em (byte = ampersand) with rfl | other
          · have read := next_name here nothing name (.inl rfl)
            rw [feed_element turns here listed read.1]
            apply (leads_name nothing (Nat.le_of_lt short) name plain).fed (goes rest read.2)
            rw [fits, true_and]
            rfl
          · have assigns : byte = equalsSign := by simpa [ends, waitedFor, other] using ender
            obtain ⟨noAmpersand, noEqualsSign⟩ := plain_iff.mp plain
            subst assigns
            have read := next_assign here nothing name
            rw [feed_element turns here listed read.1]
            apply (leads_assign nothing (Nat.le_of_lt short) name (noEqualsSign rfl)).fed (goes rest read.2)
            rw [fits, iff_true_intro noAmpersand, true_and]
            rfl
        | some varName =>
          rw [name] at fits ender plain
          have separator : byte = ampersand := by simpa [ends, waitedFor] using ender
          subst separator
          have read := next_value here nothing name (some [ampersand])
          rw [feed_element turns here listed read.1]
          apply (leads_value nothing (Nat.le_of_lt short) name plain).fed (goes rest read.2)
          rw [fits, true_and]
          rfl
    | @merged part rest stat whole short plain merged =>
      have name := waitedFor_eq_name.mp stat
      have ender : ends (waitedFor s.varName) equalsSign = true := by
        rw [name]
        rfl
      obtain ⟨before, rfl, rfl⟩ := exists_before whole ender
      have something := List.ne_nil_of_mem merged
      have read := next_assign here something name
      rw [feed_element turns here listed read.1]
      apply (leads_assign something (Nat.le_of_lt short) name plain).fed (goes rest read.2)
      constructor
      · intro fits
        exact absurd fits (not_fits_merged _ name plain merged short)
      · rintro ⟨noAmpersand, _⟩
        exact absurd merged noAmpersand

/-! ## Writes and the end of the stream -/

theorem feedAll_leads {reader : Reader UrlVars} {s : Standing} (here : At reader s) {writes : List Bytes}
    (filled : ∀ buf ∈ writes, buf ≠ []) :
    (FitsAll s.place writes → (protocol.feedAll reader writes).1 = .open) ∧
      ((protocol.feedAll reader writes).1 = .open → ∃ s' fits, At (protocol.feedAll reader writes).2 s' ∧
        Leads s writes.flatten s' fits ∧ (FitsAll s.place writes ↔ fits ∧ s'.place ≠ (.waitingContent, 0))) := by
  induction writes generalizing reader s with
  | nil => exact ⟨fun _ => rfl, fun _ => ⟨s, True, here, .refl s, by simp only [FitsAll, true_and]⟩⟩
  | cons buf later ih =>
    obtain ⟨through, goes⟩ := feed_fed (protocol.maxTTL + 1) here (filled buf (.head _))
    have filled := fun other member => filled other (.tail buf member)
    rw [Protocol.feedAll]
    generalize protocol.feed (protocol.maxTTL + 1) reader buf = fed at through goes
    obtain ⟨verdict, next⟩ := fed
    dsimp only at through goes ⊢
    by_cases opened : verdict = .open
    · obtain ⟨s', there, leads⟩ := goes opened
      obtain ⟨through', goes'⟩ := ih there filled
      rw [if_pos opened]
      constructor
      · rintro ⟨fit, fits⟩
        rw [← leads.place fit] at fits
        exact through' fits
      · intro opened'
        obtain ⟨s'', fits', last, leads', iff⟩ := goes' opened'
        refine ⟨s'', _, last, leads.trans leads' Iff.rfl, ?_⟩
        rw [FitsAll, and_assoc]
        apply and_congr_right
        intro fit
        rw [← leads.place fit]
        exact iff
    · rw [if_neg opened]
      exact ⟨fun fits => absurd (through fits.1) opened, fun opened' => absurd opened' opened⟩

/-- At the end of the stream what waits is a name or a value, and a value of which nothing is there is lost. -/
theorem feedEOF_reads {reader : Reader UrlVars} {s : Standing} (here : At reader s) :
    s.Reads [] (protocol.feedEOF reader).user.vars ∧
      ((protocol.feedEOF reader).user.vars = s.following [] ↔ s.place ≠ (.waitingContent, 0)) := by
  have atEnd : reader.settings.atEnd = some [] := by
    rw [here.settings]
    rfl
  rw [Protocol.feedEOF, here.pending, atEnd, s.place_eq, Standing.Reads, Standing.following, List.append_nil]
  by_cases nothing : s.pending = []
  · rw [(next_empty here nothing _).2.vars, nothing]
    refine ⟨.finish, ?_⟩
    cases name : s.varName with
    | none => simp [waitedFor, Vars.following, Vars.addPiece_nil, Standing.clear, Standing.hold]
    | some varName =>
      have lost : s.vars ≠ Vars.following (some varName) s.vars [] :=
        ne_of_fewer (fewer_of_value (Reads.finish : Reads none s.vars [] s.vars) rfl (.inl rfl))
      simp only [waitedFor, List.length_nil, ne_eq, not_true_eq_false, iff_false]
      exact lost
  · cases name : s.varName with
    | none =>
      have plain := s.plain
      rw [name] at plain
      obtain ⟨noAmpersand, noEqualsSign⟩ := plain_iff.mp plain
      rw [(next_name here nothing name (.inr rfl)).2.vars]
      refine ⟨.lastName nothing s.short noAmpersand (noEqualsSign rfl), ?_⟩
      rw [Vars.following_lastName s.vars nothing noAmpersand (noEqualsSign rfl)]
      simp [waitedFor, Standing.store]
    | some varName =>
      have plain := s.plain
      rw [name] at plain
      have noAmpersand := (plain_iff.mp plain).1
      rw [(next_value here nothing name _).2.vars]
      refine ⟨.lastValue nothing s.short noAmpersand, ?_⟩
      rw [Vars.following_lastValue s.vars noAmpersand]
      simp [waitedFor, Standing.store, nothing]

theorem settings_bounded (currentStat : UrlVarStat) : (settings currentStat).Bounded where
  mode := .inr rfl
  target := by
    change 4096 ≤ 262144
    decide

theorem bounded : protocol.Bounded where
  parse := by
    intro user settings presented bounded
    cases presented <;> exact bounded
  changeToNextParser := by
    intro user settings' user' changed
    simp only [protocol, changeToNextParser] at changed
    cases stat : user.currentStat with
    | waitingName =>
      simp only [stat] at changed
      split at changed <;> cases changed <;> exact settings_bounded _
    | waitingContent =>
      simp only [stat] at changed
      cases changed
      exact settings_bounded _

/-- What the writes come to, and what a reader would take of them. -/
theorem parsed_reads {writes : List Bytes} (filled : ∀ buf ∈ writes, buf ≠ []) :
    (FitsAll (.waitingName, 0) writes → (parsed writes).1 = .open) ∧
      ((parsed writes).1 = .open → Reads none .empty writes.flatten (parsed writes).2 ∧
        ((parsed writes).2 = Vars.meaning writes.flatten ↔ FitsAll (.waitingName, 0) writes)) := by
  have start : Stands parser ⟨settings .waitingName, [], new⟩ := stands_new (settings_bounded _) new
  obtain ⟨verdict, _, stands⟩ := writeAll_feedAll bounded start filled
  obtain ⟨through, goes⟩ := feedAll_leads at_start filled
  simp only [parsed]
  rw [verdict]
  refine ⟨through, fun opened => ?_⟩
  obtain ⟨s, fits, here, leads, iff⟩ := goes opened
  rw [writeEOF_feedEOF (stands (by rw [opened]; simp))]
  obtain ⟨reads, exact⟩ := feedEOF_reads here
  have whole := leads.reads reads
  rw [List.append_nil] at whole
  refine ⟨whole, ?_⟩
  rw [Vars.meaning_eq]
  change _ = Standing.start.following writes.flatten ↔ _
  apply Iff.trans ?_ iff.symm
  rw [← exact]
  constructor
  · intro same
    have fit : fits := by
      by_contra unfit
      have different := leads.missed unfit reads
      rw [List.append_nil] at different
      exact different same
    refine ⟨fit, ?_⟩
    rw [leads.following fit, List.append_nil]
    exact same
  · rintro ⟨fit, same⟩
    rw [same, leads.following fit, List.append_nil]

/-- The variables are read for what they mean where the writes fit, and nowhere else. -/
theorem parsed_eq_meaning_iff {writes : List Bytes} (filled : ∀ buf ∈ writes, buf ≠ []) :
    parsed writes = (.open, Vars.meaning writes.flatten) ↔ FitsAll (.waitingName, 0) writes := by
  obtain ⟨through, goes⟩ := parsed_reads filled
  constructor
  · intro same
    rw [same] at goes
    exact (goes rfl).2.mp rfl
  · intro fits
    exact Prod.ext (through fits) ((goes (through fits)).2.mpr fits)

end UrlVars

end Mantids.HTTP
