import Mantids.Protocols.ChunkedBody

/-! The grammar of a chunked body against what the parser makes of the stream: which lines it takes for a size,
and what it takes for the end of a chunk. -/

set_option autoImplicit false

namespace Mantids.HTTP.ChunkedGrammar

open Memory Memory.Streams Decoders.URL

/-! ## The grammar -/

/-- The hexadecimal number of a chunk that is not too large. -/
def ValidSize (line : Bytes) : Prop :=
  line ≠ [] ∧ (∀ byte ∈ line, isxdigit byte = true) ∧ hexDigitsValue 0 line ≤ Content.securityMaxHttpChunkSize

instance decidableValidSize (line : Bytes) : Decidable (ValidSize line) :=
  inferInstanceAs (Decidable (_ ∧ _ ∧ _))

inductive Fault where
  | line (text : Bytes)
  | ending
  deriving DecidableEq

inductive Judgement where
  | unfinishedLine (text : Bytes)
  | tooLong
  | unfinishedChunk
  | ended
  | faulty (fault : Fault)
  deriving DecidableEq

/-- How far a stream follows the grammar. The line of a size ends within so many bytes. -/
def judge (lineLimit : Nat) (stream : Bytes) : Judgement :=
  match found : Library.occurrence [13, 10] (stream.take lineLimit) with
  | none => if stream.length ≤ lineLimit then .unfinishedLine stream else .tooLong
  | some pos =>
    let line := stream.take pos
    let data := stream.drop (pos + 2)
    if ¬ValidSize line then .faulty (.line line)
    else if hexDigitsValue 0 line = 0 then .ended
    else if data.length < hexDigitsValue 0 line then .unfinishedChunk
    else if (data.drop (hexDigitsValue 0 line)).length < 2 then .unfinishedChunk
    else if (data.drop (hexDigitsValue 0 line)).take 2 ≠ [13, 10] then .faulty .ending
    else judge 1024 ((data.drop (hexDigitsValue 0 line)).drop 2)
termination_by stream.length
decreasing_by
  have inside := Library.occurrence_end_le found
  rw [List.length_take, List.length_cons, List.length_singleton] at inside
  rw [List.length_drop, List.length_drop, List.length_drop]
  omega

/-- Behind the data of a chunk. -/
def judgeEnding (stream : Bytes) : Judgement :=
  if stream.length < 2 then .unfinishedChunk
  else if stream.take 2 ≠ [13, 10] then .faulty .ending
  else judge 1024 (stream.drop 2)

/-- Behind the line of a size. -/
def judgeData (size : Nat) (stream : Bytes) : Judgement :=
  if stream.length < size then .unfinishedChunk else judgeEnding (stream.drop size)

theorem judge_missing {lineLimit : Nat} {stream : Bytes}
    (missing : Library.occurrence [13, 10] (stream.take lineLimit) = none) :
    judge lineLimit stream = if stream.length ≤ lineLimit then .unfinishedLine stream else .tooLong := by
  rw [judge]
  split
  · rfl
  · rename_i found
    rw [missing] at found
    cases found

theorem judge_found {lineLimit : Nat} {stream : Bytes} {pos : Nat}
    (found : Library.occurrence [13, 10] (stream.take lineLimit) = some pos) :
    judge lineLimit stream =
      if ¬ValidSize (stream.take pos) then .faulty (.line (stream.take pos))
      else if hexDigitsValue 0 (stream.take pos) = 0 then .ended
      else judgeData (hexDigitsValue 0 (stream.take pos)) (stream.drop (pos + 2)) := by
  rw [judge]
  split
  · rename_i missing
    rw [missing] at found
    cases found
  · rename_i pos' found'
    rw [found] at found'
    cases found'
    rfl

/-! ## What the parser makes of an element -/

/-- What is still to be judged, for a parser between two elements. -/
def judgeFrom (content : Content) (settings : Settings) (stream : Bytes) : Judgement :=
  match content.currentMode with
  | .procModeChunkSize => judge settings.parseDataTargetSize stream
  | .procModeChunkData => judgeData settings.parseDataTargetSize stream
  | .procModeChunkCRLF => judgeEnding stream
  | .procModeContentLength | .procModeConnectionClose => .unfinishedChunk

/-- The only faults that the parser notices: lines that `strtoul` takes for more than the largest chunk. -/
inductive Refused : Fault → Prop where
  | line {text : Bytes} (large : Content.securityMaxHttpChunkSize < strtoulHexadecimal text % 2 ^ 32) :
    Refused (.line text)

/-- The body ends. Between a size and the end of its chunk the parser moves on without an end of the output. -/
def Ends (verdict : Verdict) (parser : Parser Content) : Prop :=
  verdict = .finished ∧ parser.user.currentMode = .procModeChunkSize

/-- What the parser has made of the bytes of an element, and how they are judged whatever comes behind them. -/
inductive Judged (content : Content) (settings : Settings) (text : Bytes) : Verdict × Parser Content → Prop where
  | goes {content' : Content} {settings' : Settings} (inside : InChunks content' settings')
      (same : ∀ later, judgeFrom content settings (text ++ later) = judgeFrom content' settings' later) :
      Judged content settings text (.open, ⟨some (.new settings'), content'⟩)
  | ends {parser : Parser Content} (mode : parser.user.currentMode = .procModeChunkSize)
      (ended : ∀ later, judgeFrom content settings (text ++ later) = .ended) :
      Judged content settings text (.finished, parser)
  | refuses {parser : Parser Content} {fault : Fault} (refused : Refused fault)
      (faulty : ∀ later, judgeFrom content settings (text ++ later) = .faulty fault) :
      Judged content settings text (.failed, parser)
  | misreads {verdict : Verdict} {parser : Parser Content} {fault : Fault} (kept : ¬Refused fault)
      (faulty : ∀ later, judgeFrom content settings (text ++ later) = .faulty fault)
      (goes : verdict = .open ∨ Ends verdict parser) : Judged content settings text (verdict, parser)

theorem ValidSize.value {line : Bytes} (valid : ValidSize line) :
    strtoulHexadecimal line % 2 ^ 32 = hexDigitsValue 0 line := by
  obtain ⟨-, digits, small⟩ := valid
  have limit : Content.securityMaxHttpChunkSize = 16777216 := rfl
  rw [strtoulHexadecimal_digits digits, Nat.min_eq_left (by omega), Nat.mod_eq_of_lt (by omega)]

theorem parseHttpChunkSize_eq (line : Bytes) : Content.parseHttpChunkSize line =
    if Content.securityMaxHttpChunkSize < strtoulHexadecimal line % 2 ^ 32 then 2 ^ 32 - 1
    else strtoulHexadecimal line % 2 ^ 32 := by
  have limit : Content.securityMaxHttpChunkSize = 16777216 := rfl
  rw [Content.parseHttpChunkSize]
  by_cases large : Content.securityMaxHttpChunkSize < strtoulHexadecimal line % 2 ^ 32
  · rw [if_pos (.inr large), if_pos large]
  · rw [if_neg (by omega), if_neg large]

theorem read_judged {content : Content} {settings : Settings} (inside : InChunks content settings) {text : Bytes}
    {element : Element} (complete : settings.firstElement text = some element) (all : element.length = text.length) :
    Judged content settings text (Content.protocol.read content settings element.presented) := by
  have limit : Content.securityMaxHttpChunkSize = 16777216 := rfl
  cases inside with
  | size mode waits delimiter bounded =>
    rw [Settings.firstElement_delimiter (by rw [waits]; decide)] at complete
    simp only [Settings.firstDelimiter, waits, delimiter, Option.map_map, Option.map_eq_some_iff] at complete
    obtain ⟨pos, found, same⟩ := complete
    obtain rfl : ⟨text.take pos, none, pos + 2⟩ = element := same
    dsimp only at all
    have judged (later : Bytes) : judgeFrom content settings (text ++ later) =
        if ¬ValidSize (text.take pos) then .faulty (.line (text.take pos))
        else if hexDigitsValue 0 (text.take pos) = 0 then .ended
        else judgeData (hexDigitsValue 0 (text.take pos)) later := by
      obtain ⟨whole, inLimit, fits⟩ := Library.occurrence_take_eq_some_iff.mp found
      have found' : Library.occurrence [13, 10] ((text ++ later).take settings.parseDataTargetSize) = some pos :=
        Library.occurrence_take_eq_some_iff.mpr ⟨Library.occurrence_append whole, inLimit, fits⟩
      simp only [judgeFrom, mode]
      rw [judge_found found', List.take_append_of_le_length (by omega), List.drop_left' all.symm]
    have size := parseHttpChunkSize_eq (text.take pos)
    by_cases large : Content.securityMaxHttpChunkSize < strtoulHexadecimal (text.take pos) % 2 ^ 32
    · have invalid : ¬ValidSize (text.take pos) := by
        intro valid
        rw [valid.value] at large
        exact absurd valid.2.2 (Nat.not_le.mpr large)
      rw [if_pos large] at size
      have parsed : Content.parse content settings (.element (text.take pos) none) = (.error, settings, content) := by
        simp only [Content.parse, mode]
        exact if_pos size
      rw [Element.presented, read_of_parse parsed]
      apply Judged.refuses (.line large)
      intro later
      rw [judged, if_pos invalid]
    · rw [if_neg large] at size
      have other : ¬Content.parseHttpChunkSize (text.take pos) = 2 ^ 32 - 1 := by omega
      have kept : ¬Refused (.line (text.take pos)) := by
        intro refused
        cases refused with
        | line large' => exact large large'
      by_cases last : Content.parseHttpChunkSize (text.take pos) = 0
      · have parsed : Content.parse content settings (.element (text.take pos) none) =
            (.gotoNextSubParser, settings, content) := by
          simp only [Content.parse, mode]
          exact (if_neg other).trans (if_neg (Nat.not_lt.mpr (Nat.le_of_eq last)))
        rw [Element.presented, read_of_parse parsed]
        by_cases valid : ValidSize (text.take pos)
        · apply Judged.ends mode
          intro later
          rw [judged, if_neg (not_not.mpr valid), ← valid.value, ← size, if_pos last]
        · apply Judged.misreads kept _ (.inr ⟨rfl, mode⟩)
          intro later
          rw [judged, if_pos valid]
      · obtain ⟨target, same, parsed⟩ : ∃ target : Fin (2 ^ 64),
            (target : Nat) = Content.parseHttpChunkSize (text.take pos) ∧
            Content.parse content settings (.element (text.take pos) none) =
              (.getMoreData, exactly settings target, { content with currentMode := .procModeChunkData }) := by
          refine ⟨⟨_, Nat.mod_lt _ (by decide)⟩, Nat.mod_eq_of_lt (by omega), ?_⟩
          simp only [Content.parse, mode]
          exact (if_neg other).trans (if_pos (Nat.pos_of_ne_zero last))
        rw [Element.presented, read_of_parse parsed]
        by_cases valid : ValidSize (text.take pos)
        · apply Judged.goes
          case inside =>
            apply InChunks.data
            case mode => rfl
            case waits => rfl
            case some => exact Nat.lt_of_lt_of_eq (Nat.pos_of_ne_zero last) same.symm
            case bounded =>
              dsimp only [exactly]
              omega
          case same =>
            intro later
            rw [judged, if_neg (not_not.mpr valid), ← valid.value, ← size, if_neg last, ← same]
            rfl
        · apply Judged.misreads kept _ (.inl rfl)
          intro later
          rw [judged, if_pos valid]
  | data mode waits some bounded =>
    rw [Settings.firstElement_size waits, Option.ite_none_right_eq_some] at complete
    obtain ⟨⟨-, long⟩, same⟩ := complete
    cases same
    dsimp only at all
    have parsed : Content.parse content settings (.element (text.take settings.parseDataTargetSize) none) =
        (.getMoreData, exactly settings ⟨2, by decide⟩,
          { content with currentMode := .procModeChunkCRLF,
                         outStream := content.outStream ++ text.take settings.parseDataTargetSize }) := by
      simp only [Content.parse, mode, Presented.parsedBuffer]
      rfl
    rw [Element.presented, read_of_parse parsed]
    apply Judged.goes
    case inside => exact .crlf rfl rfl rfl
    case same =>
      intro later
      simp only [judgeFrom, mode]
      rw [judgeData, if_neg (by rw [List.length_append]; omega), List.drop_left' all.symm]
  | crlf mode waits two =>
    rw [Settings.firstElement_size waits, Option.ite_none_right_eq_some] at complete
    obtain ⟨⟨-, long⟩, same⟩ := complete
    cases same
    dsimp only at all
    have parsed : Content.parse content settings (.element (text.take settings.parseDataTargetSize) none) =
        (.getMoreData, nextSize settings, { content with currentMode := .procModeChunkSize }) := by
      simp only [Content.parse, mode]
      rfl
    have judged (later : Bytes) : judgeFrom content settings (text ++ later) =
        if text ≠ [13, 10] then .faulty .ending else judge 1024 later := by
      simp only [judgeFrom, mode]
      rw [judgeEnding, if_neg (by rw [List.length_append]; omega), List.take_left' (by omega), List.drop_left' (by omega)]
    rw [Element.presented, read_of_parse parsed]
    by_cases ending : text = [13, 10]
    · apply Judged.goes
      case inside =>
        apply InChunks.size
        case mode => rfl
        case waits => rfl
        case delimiter => rfl
        case bounded =>
          dsimp only [nextSize]
          decide
      case same =>
        intro later
        rw [judged, if_neg (not_not.mpr ending)]
        rfl
    · -- the two bytes are counted and not looked at
      have kept : ¬Refused .ending := by
        intro refused
        cases refused
      apply Judged.misreads kept _ (.inl rfl)
      intro later
      rw [judged, if_pos ending]

section
variable {content : Content} {settings : Settings} (inside : InChunks content settings) {stream : Bytes}
include inside

/-- The first element of a stream, with the rest of the stream behind it. -/
theorem first_judged {element : Element} (complete : settings.firstElement stream = some element) :
    Judged content settings (stream.take element.length)
      (Content.protocol.read content settings element.presented) := by
  have within := (Settings.firstElement_length_le complete).1
  apply read_judged inside (firstElement_take inside complete).1
  rw [List.length_take, Nat.min_eq_left within]

/-- Written on its own, the first element is read and nothing left. -/
theorem write_judged {element : Element} (complete : settings.firstElement stream = some element) :
    ∃ text rest read, text ++ rest = stream ∧ text ≠ [] ∧ rest.length < stream.length ∧
      Judged content settings text read ∧
      (Content.protocol.write ⟨some (.new settings), content⟩ text).verdict = read.1 ∧
      (Content.protocol.write ⟨some (.new settings), content⟩ text).parser = read.2 := by
  obtain ⟨-, positive⟩ := firstElement_take inside complete
  have within := (Settings.firstElement_length_le complete).1
  have own := @write_element content settings inside stream element complete _ _ rfl
  refine ⟨_, _, _, List.take_append_drop element.length stream, ?_, ?_, first_judged inside complete, own⟩
  · apply List.ne_nil_of_length_pos
    rw [List.length_take]
    omega
  · rw [List.length_drop]
    omega

/-- Without a complete element the stream is neither at its end nor at fault. -/
theorem judgeFrom_incomplete (incomplete : settings.firstElement stream = none) :
    content.currentMode ≠ .procModeChunkSize ∧ judgeFrom content settings stream = .unfinishedChunk ∨
      content.currentMode = .procModeChunkSize ∧ judgeFrom content settings stream =
        if stream.length ≤ settings.parseDataTargetSize then .unfinishedLine stream else .tooLong := by
  cases inside with
  | size mode waits delimiter _ =>
    rw [Settings.firstElement_delimiter (by rw [waits]; decide), Option.map_eq_none_iff] at incomplete
    simp only [Settings.firstDelimiter, waits, delimiter, Option.map_eq_none_iff] at incomplete
    simp only [judgeFrom, mode]
    exact .inr ⟨trivial, judge_missing incomplete⟩
  | data mode waits some _ =>
    rw [Settings.firstElement_size waits, ite_eq_right_iff] at incomplete
    simp only [judgeFrom, mode]
    refine .inl ⟨fun other => (by cases other), ?_⟩
    rw [judgeData, if_pos]
    by_contra long
    have filled : stream ≠ [] := List.ne_nil_of_length_pos (by omega)
    cases incomplete ⟨filled, Nat.le_of_not_lt long⟩
  | crlf mode waits two =>
    rw [Settings.firstElement_size waits, ite_eq_right_iff, two] at incomplete
    simp only [judgeFrom, mode]
    refine .inl ⟨fun other => (by cases other), ?_⟩
    rw [judgeEnding, if_pos]
    by_contra long
    have filled : stream ≠ [] := List.ne_nil_of_length_pos (by omega)
    cases incomplete ⟨filled, Nat.le_of_not_lt long⟩

theorem not_faulty_of_incomplete (incomplete : settings.firstElement stream = none) (fault : Fault) :
    judgeFrom content settings stream ≠ .faulty fault := by
  intro faulty
  rcases judgeFrom_incomplete inside incomplete with ⟨-, other⟩ | ⟨-, other⟩
  · rw [other] at faulty
    cases faulty
  · rw [other] at faulty
    split at faulty <;> cases faulty

end

/-- A fault stays one, whatever comes behind it. -/
theorem judgeFrom_append (n : Nat) {content : Content} {settings : Settings} (inside : InChunks content settings)
    {stream : Bytes} (short : stream.length ≤ n) {fault : Fault}
    (faulty : judgeFrom content settings stream = .faulty fault) (later : Bytes) :
    judgeFrom content settings (stream ++ later) = .faulty fault := by
  induction n generalizing content settings stream with
  | zero =>
    have empty := List.eq_nil_of_length_eq_zero (Nat.le_zero.mp short)
    subst empty
    exact absurd faulty (not_faulty_of_incomplete inside Settings.firstElement_nil fault)
  | succ n ih =>
    cases complete : settings.firstElement stream with
    | none => exact absurd faulty (not_faulty_of_incomplete inside complete fault)
    | some element =>
      obtain ⟨text, rest, read, rfl, -, shorter, judged, -⟩ := write_judged inside complete
      rw [List.append_assoc]
      cases judged with
      | goes inside' same =>
        rw [same] at faulty ⊢
        exact ih inside' (by omega) faulty
      | ends _ ended =>
        rw [ended] at faulty
        cases faulty
      | refuses _ same =>
        rw [same] at faulty ⊢
        exact faulty
      | misreads _ same _ =>
        rw [same] at faulty ⊢
        exact faulty

/-! ## Runs -/

/-- Where the parser would notice every fault, what is read is judged like what is left. -/
theorem judged_reads {content last : Content} {settings final : Settings} {stream rest : Bytes}
    (inside : InChunks content settings)
    (noticed : ∀ fault, judgeFrom content settings stream = .faulty fault → Refused fault)
    (reads : ReadsTo Content.protocol content settings stream last final rest) :
    InChunks last final ∧ judgeFrom content settings stream = judgeFrom last final rest := by
  induction reads with
  | refl => exact ⟨inside, rfl⟩
  | @step content content' last settings settings' final stream rest element complete goes _ ih =>
    have judged := first_judged inside complete
    have parts : judgeFrom content settings stream =
        judgeFrom content settings (stream.take element.length ++ stream.drop element.length) := by
      rw [List.take_append_drop]
    rw [parts] at noticed ⊢
    generalize same : Content.protocol.read content settings element.presented = read at judged
    cases judged with
    | goes inside' same' =>
      rw [goes] at same
      obtain ⟨rfl, rfl⟩ := open_new_inj same
      rw [same'] at noticed ⊢
      exact ih inside' noticed
    | ends _ _ =>
      rw [goes] at same
      cases congrArg Prod.fst same
    | refuses _ _ =>
      rw [goes] at same
      cases congrArg Prod.fst same
    | misreads kept faulty _ => exact absurd (noticed _ (faulty _)) kept

section
variable {content : Content} {p : SubParser} (waiting : Waiting p) (inside : InChunks content p.settings)
include waiting inside

/-- At the end of the stream a parser between two lines reads what it has of one as the size. -/
theorem write_nothing : Ends (Content.protocol.write ⟨some p, content⟩ []).verdict
      (Content.protocol.write ⟨some p, content⟩ []).parser ↔
    content.currentMode = .procModeChunkSize ∧ Content.parseHttpChunkSize p.pending = 0 := by
  have fits := waiting.fits
  have parses : Content.protocol.parse = Content.parse := rfl
  cases inside with
  | size mode waits delimiter bounded =>
    have missing := waiting.incomplete
    rw [Settings.firstElement_delimiter (by rw [waits]; decide), Option.map_eq_none_iff] at missing
    simp only [Settings.firstDelimiter, waits, delimiter, Option.map_eq_none_iff] at missing
    rw [List.take_of_length_le (by rw [waiting.length_pending]; exact fits)] at missing
    have mode' : p.parseMode = .delimiter := waits
    have delimiter' : p.parseDelimiter = [13, 10] := delimiter
    have nothing := BChunks.append_nil waiting.counted fits
    have found : p.unparsedBuffer.find [13, 10] = none := (BChunks.find_eq waiting.counted _).trans missing
    have stick (p : SubParser) : p.stick [] = [] := by
      unfold SubParser.stick
      split
      · exact List.take_nil
      · rfl
    have result : writeIntoParser Content.parse content (Content.protocol.fresh content) p [] =
        present Content.parse content { p with streamEnded := true } (.element p.pending none) 0 := by
      simp only [writeIntoParser, if_true, mode', parseByDelimiter, parseUpTo, stick, nothing, ne_eq, not_true_eq_false,
        false_and, if_false, delimiter', found, Option.map_none]
      rfl
    have settings : SubParser.settings { p with streamEnded := true } = p.settings := rfl
    have number := parseHttpChunkSize_cases p.pending
    simp only [Protocol.write, Protocol.parseData, parses, result, present, settings, Content.parse, mode,
      Presented.parsedBuffer, true_and]
    by_cases none : Content.parseHttpChunkSize p.pending = 2 ^ 32 - 1
    · simp only [none, if_true, Protocol.turn, Ends, reduceCtorEq, false_and, if_false]
    · simp only [none, if_false]
      by_cases last : Content.parseHttpChunkSize p.pending = 0
      · simp only [last, Nat.lt_irrefl, if_false, Protocol.turn, Content.protocol, Ends, reduceCtorEq, false_and, mode,
          and_self]
      · have some := Nat.pos_of_ne_zero last
        simp only [some, if_true, Protocol.turn, Ends, List.length_nil, ne_eq, not_true_eq_false, and_false, if_false,
          reduceCtorEq, last]
  | data mode waits _ _ =>
    have mode' : p.parseMode = .size := waits
    simp [Protocol.write, Protocol.parseData, writeIntoParser, mode', parseBySize, Protocol.turn, Content.protocol, Ends, mode]
  | crlf mode waits _ =>
    have mode' : p.parseMode = .size := waits
    simp [Protocol.write, Protocol.parseData, writeIntoParser, mode', parseBySize, Protocol.turn, Content.protocol, Ends, mode]

end

section
variable {content : Content} {settings : Settings} (inside : InChunks content settings) {stream : Bytes}
include inside

/-- Some pieces lead to what the parser does not notice. -/
theorem exists_misread (n : Nat) (short : stream.length ≤ n) {fault : Fault}
    (faulty : judgeFrom content settings stream = .faulty fault) (kept : ¬Refused fault) :
    ∃ writes : List Bytes, (∀ buf ∈ writes, buf ≠ []) ∧ writes.flatten <+: stream ∧
      judgeFrom content settings writes.flatten = .faulty fault ∧
      ((Content.protocol.writeAll ⟨some (.new settings), content⟩ writes).1 = .open ∨
        Ends (Content.protocol.writeAll ⟨some (.new settings), content⟩ writes).1
          (Content.protocol.writeAll ⟨some (.new settings), content⟩ writes).2) := by
  induction n generalizing content settings stream with
  | zero =>
    have empty := List.eq_nil_of_length_eq_zero (Nat.le_zero.mp short)
    subst empty
    exact absurd faulty (not_faulty_of_incomplete inside Settings.firstElement_nil fault)
  | succ n ih =>
    cases complete : settings.firstElement stream with
    | none => exact absurd faulty (not_faulty_of_incomplete inside complete fault)
    | some element =>
      obtain ⟨text, rest, read, rfl, some, shorter, judged, own⟩ := write_judged inside complete
      cases judged with
      | goes inside' same' =>
        rw [same'] at faulty
        obtain ⟨writes, filled, front, faulty', ends⟩ := ih inside' (by omega) faulty
        refine ⟨text :: writes, List.forall_mem_cons.mpr ⟨some, filled⟩, ?_, ?_, ?_⟩
        · rw [List.flatten_cons]
          exact (List.prefix_append_right_inj text).mpr front
        · rw [List.flatten_cons, same']
          exact faulty'
        · rw [Protocol.writeAll, own.1, if_pos rfl, own.2]
          exact ends
      | ends _ ended =>
        rw [ended] at faulty
        cases faulty
      | refuses refused faulty' =>
        rw [faulty'] at faulty
        cases faulty
        exact absurd refused kept
      | misreads kept' faulty' goes =>
        rw [faulty'] at faulty
        cases faulty
        refine ⟨[text], List.forall_mem_singleton.mpr some, ?_, ?_, ?_⟩
        · rw [List.flatten_singleton]
          exact List.prefix_append text rest
        · rw [List.flatten_singleton, ← List.append_nil text]
          exact faulty' []
        · rw [Protocol.writeAll, own.1]
          split
          case isTrue => exact .inl rfl
          case isFalse ended =>
            rw [own.2]
            exact .inr (goes.resolve_left ended)

omit inside in
/-- A new sub parser keeps what may be the front of a line. -/
theorem write_line (waits : settings.parseMode = .delimiter) (delimiter : settings.parseDelimiter = [13, 10])
    (bounded : (settings.parseDataTargetSize : Nat) ≤ 16777216) (filled : stream ≠ [])
    (short : stream.length ≤ settings.parseDataTargetSize)
    (missing : Library.occurrence [13, 10] (stream.take settings.parseDataTargetSize) = none) :
    (Content.protocol.write ⟨some (.new settings), content⟩ stream).verdict = .open := by
  have waiting : Waiting (.new settings) := waiting_new (by rw [waits]; trivial)
  have some := List.length_pos_of_ne_nil filled
  have target : (SubParser.new settings).unparsedBuffer.getSizeLeft = settings.parseDataTargetSize :=
    if_neg (Nat.not_lt_zero _)
  have left : (SubParser.new settings).unparsedBuffer.getSizeLeft ≠ 0 := by omega
  have fits : stream.take (SubParser.new settings).unparsedBuffer.getSizeLeft = stream :=
    List.take_of_length_le (by omega)
  have room : HasRoom (.new settings) stream := by
    rw [HasRoom, fits]
    change 0 + (stream.length + 65536 - 1) / 65536 ≤ 262144
    omega
  obtain ⟨c, appended, result⟩ := parseUpTo_room Content.protocol.parse content waiting filled
    (fun c => (c.find settings.parseDelimiter).map fun pos => ⟨pos, settings.parseDelimiter.length, none⟩) none left room
  have whole : Memory.content c.chunksVector = stream := by
    rw [appended.content, fits]
    rfl
  rw [List.take_of_length_le short, ← whole, ← BChunks.find_eq appended.counted, ← delimiter] at missing
  rw [missing, fits] at result
  have dispatched : writeIntoParser Content.protocol.parse content (Content.protocol.fresh content) (.new settings) stream =
      parseUpTo Content.protocol.parse content (fun c => (c.find settings.parseDelimiter).map fun pos =>
        ⟨pos, settings.parseDelimiter.length, none⟩) none (.new settings) stream := by
    have dispatch : (SubParser.new settings).parseMode = .delimiter := waits
    simp only [writeIntoParser, filled, if_false, dispatch]
    rfl
  rw [Protocol.write, parseData_more Content.protocol Content.protocol.maxTTL (dispatched.trans result),
    if_neg (fun other => other rfl)]

/-- Some pieces of a stream that breaks off in a line leave the parser there. -/
theorem exists_unfinished (n : Nat) (short : stream.length < n) {line : Bytes}
    (unfinished : judgeFrom content settings stream = .unfinishedLine line) :
    ∃ writes : List Bytes, (∀ buf ∈ writes, buf ≠ []) ∧ writes.flatten = stream ∧
      (Content.protocol.writeAll ⟨some (.new settings), content⟩ writes).1 = .open ∧
      ∃ p content', (Content.protocol.writeAll ⟨some (.new settings), content⟩ writes).2 = ⟨some p, content'⟩ ∧
        Waiting p ∧ InChunks content' p.settings ∧ content'.currentMode = .procModeChunkSize ∧ p.pending = line := by
  induction n generalizing content settings stream with
  | zero => exact absurd short (Nat.not_lt_zero _)
  | succ n ih =>
    cases complete : settings.firstElement stream with
    | none =>
      obtain ⟨mode, fits, rfl⟩ : content.currentMode = .procModeChunkSize ∧
          stream.length ≤ settings.parseDataTargetSize ∧ stream = line := by
        rcases judgeFrom_incomplete inside complete with ⟨-, other⟩ | ⟨mode, same⟩
        · rw [other] at unfinished
          cases unfinished
        · rw [same] at unfinished
          split at unfinished
          case isTrue fits =>
            cases unfinished
            exact ⟨mode, fits, rfl⟩
          case isFalse => cases unfinished
      by_cases filled : stream = []
      · refine ⟨[], List.forall_mem_nil _, filled.symm, rfl, _, _, rfl, waiting_new inside.buffers.1, inside, mode, ?_⟩
        exact filled.symm
      · have once : ∀ buf ∈ [stream], buf ≠ [] := List.forall_mem_singleton.mpr filled
        have opened : (Content.protocol.writeAll ⟨some (.new settings), content⟩ [stream]).1 = .open := by
          cases inside with
          | size _ waits delimiter bounded =>
            rw [Settings.firstElement_delimiter (by rw [waits]; decide), Option.map_eq_none_iff] at complete
            simp only [Settings.firstDelimiter, waits, delimiter, Option.map_eq_none_iff] at complete
            have kept : (Content.protocol.write ⟨some (.new settings), content⟩ stream).verdict = .open :=
              write_line waits delimiter bounded filled fits complete
            rw [Protocol.writeAll, kept, if_pos rfl]
            rfl
          | data other _ _ _ => rw [mode] at other; cases other
          | crlf other _ _ => rw [mode] at other; cases other
        have hasRead : HasRead Content.protocol InChunks content settings stream ⟨some (.new settings), content⟩
            ([stream].flatten ++ []) := by
          refine ⟨_, rfl, waiting_new inside.buffers.1, inside, ?_⟩
          rw [List.flatten_singleton, List.append_nil]
          exact .refl _ _ _
        obtain ⟨p, current, waiting, inside', reads⟩ := (writeAll_elements elementwise_chunks once hasRead).1 opened
        refine ⟨[stream], once, List.flatten_singleton, opened, p,
          (Content.protocol.writeAll ⟨some (.new settings), content⟩ [stream]).2.user, ?_, waiting, inside', ?_⟩
        · rw [← current]
        · -- nothing has been read
          rw [List.append_nil] at reads
          generalize p.pending = pending at reads
          generalize p.settings = final at reads
          generalize (Content.protocol.writeAll ⟨some (.new settings), content⟩ [stream]).2.user = last at reads
          cases reads with
          | refl => exact ⟨mode, rfl⟩
          | step found _ _ =>
            rw [complete] at found
            cases found
    | some element =>
      obtain ⟨text, rest, read, rfl, some, shorter, judged, own⟩ := write_judged inside complete
      cases judged with
      | goes inside' same' =>
        rw [same'] at unfinished
        obtain ⟨writes, filled, whole, opened, left⟩ := ih inside' (by omega) unfinished
        refine ⟨text :: writes, List.forall_mem_cons.mpr ⟨some, filled⟩, ?_, ?_⟩
        · rw [List.flatten_cons, whole]
        · rw [Protocol.writeAll, own.1, if_pos rfl, own.2]
          exact ⟨opened, left⟩
      | ends _ ended =>
        rw [ended] at unfinished
        cases unfinished
      | refuses _ faulty =>
        rw [faulty] at unfinished
        cases unfinished
      | misreads _ faulty _ =>
        rw [faulty] at unfinished
        cases unfinished

end

/-! ## The grammar and the parser -/

/-- Whatever pieces a part of the stream comes in, the body ends at its last chunk and nowhere else, and every fault
and every line that is too long make the parsing fail; and where the stream ends in a line, the body ends only if the line is a zero. -/
structure FollowsGrammar (stream : Bytes) : Prop where
  within : ∀ writes : List Bytes, (∀ buf ∈ writes, buf ≠ []) → writes.flatten <+: stream →
    (Ends (Content.protocol.writeAll Content.chunksParser writes).1
        (Content.protocol.writeAll Content.chunksParser writes).2 → judge 64 writes.flatten = .ended) ∧
      ((judge 64 writes.flatten = .tooLong ∨ ∃ fault, judge 64 writes.flatten = .faulty fault) →
        (Content.protocol.writeAll Content.chunksParser writes).1 = .failed ∨
          (Content.protocol.writeAll Content.chunksParser writes).1 = .expired)
  atEnd : ∀ writes : List Bytes, (∀ buf ∈ writes, buf ≠ []) → writes.flatten = stream →
    (Content.protocol.writeAll Content.chunksParser writes).1 = .open →
    Ends (Content.protocol.write (Content.protocol.writeAll Content.chunksParser writes).2 []).verdict
      (Content.protocol.write (Content.protocol.writeAll Content.chunksParser writes).2 []).parser →
    ∃ line, judge 64 stream = .unfinishedLine line ∧ ValidSize line ∧ hexDigitsValue 0 line = 0

/-- Before the first size. -/
theorem inside_chunksParser : ∃ content settings, Content.chunksParser = ⟨some (.new settings), content⟩ ∧
    InChunks content settings ∧ ∀ stream, judgeFrom content settings stream = judge 64 stream := by
  refine ⟨_, _, rfl, ?_, fun stream => rfl⟩
  apply InChunks.size
  case mode => rfl
  case waits => rfl
  case delimiter => rfl
  case bounded => decide

section
variable {content : Content} {settings : Settings} (inside : InChunks content settings) {writes : List Bytes}
  (filled : ∀ buf ∈ writes, buf ≠ [])
  (noticed : ∀ fault, judgeFrom content settings writes.flatten = .faulty fault → Refused fault)
include inside filled

theorem writeAll_hasRead :
    ((Content.protocol.writeAll ⟨some (.new settings), content⟩ writes).1 = .open →
        HasRead Content.protocol InChunks content settings writes.flatten
          (Content.protocol.writeAll ⟨some (.new settings), content⟩ writes).2 []) ∧
      ((Content.protocol.writeAll ⟨some (.new settings), content⟩ writes).1 ≠ .open →
        HasStopped Content.protocol content settings writes.flatten
          (Content.protocol.writeAll ⟨some (.new settings), content⟩ writes).1
          (Content.protocol.writeAll ⟨some (.new settings), content⟩ writes).2) := by
  apply writeAll_elements elementwise_chunks filled
  refine ⟨_, rfl, waiting_new inside.buffers.1, inside, ?_⟩
  rw [List.append_nil]
  exact .refl _ _ _

include noticed

/-- A run in which every fault is noticed: as long as it goes on there is none, and it ends at the last chunk. -/
theorem writeAll_judged {verdict : Verdict} {parser : Parser Content}
    (result : Content.protocol.writeAll ⟨some (.new settings), content⟩ writes = (verdict, parser)) :
    verdict = .failed ∨ verdict = .expired ∨
      verdict = .finished ∧ judgeFrom content settings writes.flatten = .ended ∨
      verdict = .open ∧ ∃ p, parser.currentParser = some p ∧ Waiting p ∧ InChunks parser.user p.settings ∧
        judgeFrom content settings writes.flatten = judgeFrom parser.user p.settings p.pending := by
  obtain ⟨goes, stopped⟩ := writeAll_hasRead inside filled
  rw [result] at goes stopped
  by_cases opened : verdict = .open
  · obtain ⟨p, current, waiting, inside', reads⟩ := goes opened
    obtain ⟨-, same⟩ := judged_reads inside noticed reads
    rw [List.append_nil] at same
    exact .inr (.inr (.inr ⟨opened, p, current, waiting, inside', same⟩))
  · cases stopped opened with
    | refused failed _ => exact failed.imp_right .inl
    | @read last final left element reads complete stops _ =>
      obtain ⟨inside', same⟩ := judged_reads inside noticed reads
      have judged := first_judged inside' complete
      rw [stops] at judged
      have parts : judgeFrom content settings writes.flatten =
          judgeFrom last final (left.take element.length ++ left.drop element.length) := by
        rw [List.take_append_drop, same]
      rw [parts] at noticed ⊢
      cases judged with
      | goes _ _ => exact absurd rfl opened
      | ends _ ended => exact .inr (.inr (.inl ⟨rfl, ended _⟩))
      | refuses _ _ => exact .inl rfl
      | misreads kept faulty _ => exact absurd (noticed _ (faulty _)) kept

end

/-- The number of a size is cut to 32 bits, so that this one ends the body. -/
theorem grammar_not_followed : ¬FollowsGrammar [49, 48, 48, 48, 48, 48, 48, 48, 48, 13, 10] := by
  intro follows
  let stream : Bytes := [49, 48, 48, 48, 48, 48, 48, 48, 48, 13, 10]
  have filled : ∀ buf ∈ [stream], buf ≠ [] := List.forall_mem_singleton.mpr (by decide)
  have finished : Ends (Content.protocol.writeAll Content.chunksParser [stream]).1
      (Content.protocol.writeAll Content.chunksParser [stream]).2 := ⟨by decide +kernel, by decide +kernel⟩
  have ended := (follows.within [stream] filled (List.prefix_refl _)).1 finished
  have found : Library.occurrence [13, 10] (stream.take 64) = some 9 := by decide +kernel
  rw [List.flatten_singleton, judge_found found, if_pos (by decide +kernel)] at ended
  cases ended

/-- The grammar is followed on the streams whose faults are lines that `strtoul` takes for more than the largest chunk,
and that do not break off in a line other than a size that is taken for a zero. -/
theorem grammar_followed_iff (stream : Bytes) : FollowsGrammar stream ↔
    (∀ fault, judge 64 stream = .faulty fault → Refused fault) ∧
      ∀ line, judge 64 stream = .unfinishedLine line → strtoulHexadecimal line % 2 ^ 32 = 0 → ValidSize line := by
  obtain ⟨content, settings, new, inside, judged⟩ := inside_chunksParser
  have zero (line : Bytes) : Content.parseHttpChunkSize line = 0 ↔ strtoulHexadecimal line % 2 ^ 32 = 0 := by
    rw [parseHttpChunkSize_eq]
    split
    case isTrue large => omega
    case isFalse => exact Iff.rfl
  simp only [← judged]
  constructor
  case mp =>
    intro follows
    constructor
    · intro fault faulty
      by_contra kept
      obtain ⟨writes, filled, front, faulty', ends⟩ := exists_misread inside stream.length (Nat.le_refl _) faulty kept
      rw [← new] at ends
      rw [judged] at faulty'
      rcases (follows.within writes filled front).2 (.inr ⟨fault, faulty'⟩) with failed | failed
      · rcases ends with opened | ⟨finished, -⟩
        · cases failed.symm.trans opened
        · cases failed.symm.trans finished
      · rcases ends with opened | ⟨finished, -⟩
        · cases failed.symm.trans opened
        · cases failed.symm.trans finished
    · intro line unfinished value
      obtain ⟨writes, filled, whole, opened, p, content', left, waiting, inside', mode, pending⟩ :=
        exists_unfinished inside _ (Nat.lt_succ_self _) unfinished
      rw [← new] at opened left
      have ends := (write_nothing waiting inside').mpr ⟨mode, by rw [pending]; exact (zero line).mpr value⟩
      rw [← left] at ends
      obtain ⟨line', unfinished', valid, -⟩ := follows.atEnd writes filled whole opened ends
      rw [← judged, unfinished] at unfinished'
      cases unfinished'
      exact valid
  case mpr =>
    intro ⟨noticed, lines⟩
    constructor
    case within =>
      intro writes filled front
      obtain ⟨later, rfl⟩ := front
      have noticed' : ∀ fault, judgeFrom content settings writes.flatten = .faulty fault → Refused fault := by
        intro fault faulty
        exact noticed fault (judgeFrom_append _ inside (Nat.le_refl _) faulty later)
      have outcome := writeAll_judged inside filled noticed' rfl
      rw [← new] at outcome
      rw [← judged]
      constructor
      · intro ⟨finished, _⟩
        rcases outcome with failed | failed | ⟨-, ended⟩ | ⟨opened, -⟩
        · cases failed.symm.trans finished
        · cases failed.symm.trans finished
        · exact ended
        · cases opened.symm.trans finished
      · intro broken
        rcases outcome with failed | failed | ⟨-, ended⟩ | ⟨-, p, -, waiting, inside', same⟩
        · exact .inl failed
        · exact .inr failed
        · rw [ended] at broken
          rcases broken with long | ⟨fault, faulty⟩
          · cases long
          · cases faulty
        · rw [same] at broken
          rcases broken with long | ⟨fault, faulty⟩
          · -- the buffer of an open parser is not over its limit
            rcases judgeFrom_incomplete inside' waiting.incomplete with ⟨-, other⟩ | ⟨-, line⟩
            · cases other.symm.trans long
            · rw [if_pos waiting.pending_le] at line
              cases line.symm.trans long
          · exact absurd faulty (not_faulty_of_incomplete inside' waiting.incomplete fault)
    case atEnd =>
      intro writes filled whole opened ends
      subst whole
      have outcome := writeAll_judged inside filled noticed rfl
      rw [← new] at outcome
      rcases outcome with failed | failed | ⟨finished, -⟩ | ⟨-, p, current, waiting, inside', same⟩
      · cases failed.symm.trans opened
      · cases failed.symm.trans opened
      · cases finished.symm.trans opened
      · generalize Content.protocol.writeAll Content.chunksParser writes = written at *
        obtain ⟨verdict, currentParser, content'⟩ := written
        dsimp only at current inside' same ends
        subst current
        obtain ⟨mode, last⟩ := (write_nothing waiting inside').mp ends
        rcases judgeFrom_incomplete inside' waiting.incomplete with ⟨other, -⟩ | ⟨-, line⟩
        · exact absurd mode other
        · rw [if_pos waiting.pending_le] at line
          have value := (zero _).mp last
          have valid := lines _ (same.trans line) value
          refine ⟨p.pending, (judged _).symm.trans (same.trans line), valid, ?_⟩
          rw [← valid.value]
          exact value

end Mantids.HTTP.ChunkedGrammar
