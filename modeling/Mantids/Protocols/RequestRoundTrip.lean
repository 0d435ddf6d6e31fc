import Mantids.Protocols.RequestLine
import Mantids.Protocols.UrlVarsRoundTrip

/-! When a request line is read for the request it is made of. -/

set_option autoImplicit false

namespace Mantids.HTTP

open Memory Memory.Streams Library

/-! ## Parts of a text -/

section
variable {p : UInt8 → Bool} {text rest : Bytes} {byte : UInt8}

/-- What ends a part is what no longer belongs to it. -/
theorem takeWhile_stop (stop : p byte = false) (text rest : Bytes) :
    (text ++ byte :: rest).takeWhile p = text.takeWhile p := by
  induction text with
  | nil => simp [stop]
  | cons first text ih =>
    rw [List.cons_append, List.takeWhile_cons, List.takeWhile_cons, ih]

theorem dropWhile_stop (stop : p byte = false) (text rest : Bytes) :
    (text ++ byte :: rest).dropWhile p = text.dropWhile p ++ byte :: rest := by
  induction text with
  | nil => simp [stop]
  | cons first text ih =>
    rw [List.cons_append, List.dropWhile_cons, List.dropWhile_cons, ih]
    split <;> rfl

/-- A part as long as the text is the text. -/
theorem all_of_length_takeWhile (long : text.length ≤ (text.takeWhile p).length) : ∀ byte ∈ text, p byte = true := by
  have whole := (List.takeWhile_prefix p).eq_of_length_le long
  exact List.takeWhile_eq_self_iff.mp whole

theorem length_dropWhile_le (p : UInt8 → Bool) (text : Bytes) : (text.dropWhile p).length ≤ text.length :=
  (List.dropWhile_suffix p).length_le

/-- The first part, and those of what comes behind the bytes that separate it. -/
theorem split_eq (isAnyOf : UInt8 → Bool) (text : Bytes) : split isAnyOf text =
    text.takeWhile (fun byte => !isAnyOf byte) ::
      match text.dropWhile fun byte => !isAnyOf byte with
      | [] => []
      | _ :: rest => split isAnyOf (rest.dropWhile isAnyOf) := by
  induction text with
  | nil => rfl
  | cons byte rest ih =>
    rw [split]
    by_cases separates : isAnyOf byte = true
    · simp only [separates, if_true, Bool.not_true, Bool.false_eq_true, not_false_eq_true, List.takeWhile_cons_of_neg,
        List.dropWhile_cons_of_neg]
      rcases rest with _ | ⟨next, rest⟩
      · rfl
      · by_cases again : isAnyOf next = true
        · simp only [List.head?_cons, Option.any_some, again, if_true, List.dropWhile_cons_of_pos, ih, Bool.not_true,
            Bool.false_eq_true, not_false_eq_true, List.takeWhile_cons_of_neg, List.dropWhile_cons_of_neg]
        · simp only [List.head?_cons, Option.any_some, again, if_false, Bool.false_eq_true, not_false_eq_true,
            List.dropWhile_cons_of_neg]
    · have stays : (!isAnyOf byte) = true := by simpa using separates
      rw [if_neg separates, ih]
      simp only [List.takeWhile_cons, List.dropWhile_cons, stays, if_true]

end

/-! ## The version is plain text -/

/-- Bytes that no layer of the line gives a meaning. -/
def Plain (text : Bytes) : Prop :=
  ∀ byte ∈ text, byte ≠ 9 ∧ byte ≠ 32 ∧ byte ≠ 63 ∧ byte ≠ 13 ∧ byte ≠ 10 ∧ byte ≠ 37 ∧ byte ≠ 43

instance (text : Bytes) : Decidable (Plain text) := inferInstanceAs (Decidable (∀ _ ∈ text, _))

theorem plain_append {text rest : Bytes} (first : Plain text) (second : Plain rest) : Plain (text ++ rest) := by
  intro byte member
  rcases List.mem_append.mp member with here | later
  · exact first byte here
  · exact second byte later

theorem plain_decimal (value : UInt16) : Plain (decimal value) := by
  unfold decimal
  split
  · decide
  · intro byte member
    obtain ⟨digit, inside, rfl⟩ := List.mem_map.mp member
    have small := Nat.digits_lt_base (by decide) (List.mem_reverse.mp inside)
    have all : ∀ digit : Fin 10, Plain [48 + UInt8.ofNat digit] := by decide
    exact all ⟨digit, small⟩ _ (.head _)

theorem plain_version (version : Version) : Plain version.getHTTPVersionString := by
  have name : Plain [72, 84, 84, 80, 47] := by decide
  have dot : Plain [46] := by decide
  exact plain_append (plain_append name (plain_decimal _)) (plain_append dot (plain_decimal _))

namespace RequestLine

/-! ## What is parsed of a line -/

/-- The bytes of the URI in the text of a request target. -/
def uriByte (byte : UInt8) : Bool := !isBlank byte && byte ≠ questionMark

section
variable (line : RequestLine GetVars)

@[simp] theorem requestMethod_parseURI : line.parseURI.requestMethod = line.requestMethod := by
  unfold parseURI parseGETParameters
  dsimp only
  split <;> rfl

@[simp] theorem requestURI_parseURI : line.parseURI.requestURI =
    Decoders.URL.decodeURLStr (line.requestURI.takeWhile (· ≠ questionMark)) := by
  unfold parseURI parseGETParameters
  dsimp only
  split
  · rename_i nothing
    have all := List.dropWhile_eq_nil_iff.mp nothing
    rw [List.takeWhile_eq_self_iff.mpr all]
  · rfl

theorem getVars_parseURI_plain (plain : questionMark ∉ line.requestURI) : line.parseURI.getVars = line.getVars := by
  have all : ∀ byte ∈ line.requestURI, decide (byte ≠ questionMark) = true := by
    intro byte member
    apply decide_eq_true
    rintro rfl
    exact plain member
  simp only [parseURI, List.dropWhile_eq_nil_iff.mpr all]

/-- What the variables are after a query that is no longer than a line. -/
theorem getVars_parseURI_query {uri query : Bytes} (plain : questionMark ∉ uri) (text : 0 ∉ query)
    (split : line.requestURI = uri ++ questionMark :: query) (fresh : line.getVars = ⟨UrlVars.parser, false⟩) :
    line.parseURI.getVars.failedWriteState = decide ((UrlVars.parsed (BChunks.chunksOf query)).1 ≠ .open) ∧
      line.parseURI.getVars.parser.user.vars = (UrlVars.parsed (BChunks.chunksOf query)).2 := by
  have all : ∀ byte ∈ uri, decide (byte ≠ questionMark) = true := by
    intro byte member
    apply decide_eq_true
    rintro rfl
    exact plain member
  have whole : cString query = query := by
    apply List.takeWhile_eq_self_iff.mpr
    intro byte member
    apply decide_eq_true
    rintro rfl
    exact text member
  have behind : line.requestURI.dropWhile (· ≠ questionMark) = questionMark :: query := by
    rw [split, List.dropWhile_append_of_pos all]
    simp
  simp only [parseURI, behind, parseGETParameters, whole, fresh, UrlVars.parsed, Bool.false_or]
  exact ⟨rfl, trivial⟩

end

/-- The parts of a line that has more than one. -/
theorem parse_line {text rest : Bytes} {blank : UInt8}
    (parts : text.dropWhile (fun byte => !isBlank byte) = blank :: rest) :
    ∃ httpVersion, parse new settings (.element text none) =
      (.gotoNextSubParser, settings, parseURI { new with
        requestMethod := toUpper (text.takeWhile fun byte => !isBlank byte)
        requestURI := (rest.dropWhile isBlank).takeWhile fun byte => !isBlank byte
        httpVersion := httpVersion }) := by
  have first := split_eq isBlank text
  have second := split_eq isBlank (rest.dropWhile isBlank)
  rw [parts] at first
  dsimp only at first
  rw [second] at first
  rw [parse, first]
  exact ⟨_, rfl⟩

theorem parse_single {text : Bytes} (single : text.dropWhile (fun byte => !isBlank byte) = []) :
    (parse new settings (.element text none)).1 = .error := by
  have first := split_eq isBlank text
  rw [single] at first
  rw [parse, first]

/-! ## The line in a stream -/

theorem bounded_protocol : protocol.Bounded where
  parse := by
    intro line settings presented bounded
    cases presented with
    | element parsedBuffer delimiterFound =>
      simp only [protocol, parse]
      split <;> exact bounded
    | direct parsedBuffer leftToParse => exact bounded
  changeToNextParser := by
    intro line settings line' changed
    cases changed

theorem bounded_settings : settings.Bounded := ⟨.inl rfl, by decide⟩

theorem parse_element (line : RequestLine GetVars) (configured : Settings) (element : Element) :
    (parse line configured element.presented).1 ≠ .getMoreData := by
  simp only [parse, Element.presented]
  split <;> (intro impossible; cases impossible)

theorem next_ends (reader : Reader (RequestLine GetVars)) (element : Element) :
    (protocol.next reader element.presented).1 ≠ .open := by
  have goes := parse_element reader.user reader.settings element
  have same : protocol.parse = parse := rfl
  simp only [Protocol.next, Protocol.read, same]
  generalize parse reader.user reader.settings element.presented = result at goes
  obtain ⟨status, settings, line⟩ := result
  cases status with
  | error => exact fun impossible => by cases impossible
  | getMoreData => exact absurd rfl goes
  | gotoNextSubParser => exact fun impossible => by cases impossible

theorem firstElement_eq (text : Bytes) : settings.firstElement text =
    (occurrence crlf (text.take maxURLSize)).map fun pos => ⟨text.take pos, none, pos + crlf.length⟩ := by
  rw [Settings.firstElement_delimiter bounded_settings.not_size, Settings.firstDelimiter]
  simp only [settings, Settings.new, Option.map_map]
  rfl

/-- The writes come to what is parsed of the text before the first end of a line. -/
theorem parsed_finished_iff {writes : List Bytes} (filled : ∀ buf ∈ writes, buf ≠ []) {line : RequestLine GetVars} :
    parsed writes = (.finished, line) ↔ ∃ pos, occurrence crlf (writes.flatten.take maxURLSize) = some pos ∧
      ∃ after, parse new settings (.element (writes.flatten.take pos) none) = (.gotoNextSubParser, after, line) := by
  have start : Stands ⟨some (.new settings), new⟩ ⟨settings, [], new⟩ := stands_new bounded_settings new
  obtain ⟨verdict, user, _⟩ := writeAll_feedAll bounded_protocol start filled
  have last := @feedAll_last _ protocol ⟨settings, [], new⟩ rfl (next_ends _) (by decide) _ filled Settings.firstElement_nil
  have same : parsed writes =
      ((protocol.feedAll ⟨settings, [], new⟩ writes).1, (protocol.feedAll ⟨settings, [], new⟩ writes).2.user) := by
    rw [parsed, ← verdict, ← user]
  rw [List.nil_append, firstElement_eq] at last
  rw [same]
  cases occurs : occurrence crlf (writes.flatten.take maxURLSize) with
  | none =>
    rw [occurs] at last
    simp only [reduceCtorEq, false_and, exists_false, iff_false]
    intro finished
    exact last (congrArg Prod.fst finished)
  | some pos =>
    rw [occurs] at last
    rw [last]
    have here : protocol.parse = parse := rfl
    simp only [Option.some.injEq, exists_eq_left', Protocol.next, Protocol.read, Element.presented, here]
    have goes := parse_element new settings ⟨writes.flatten.take pos, none, pos + crlf.length⟩
    rw [Element.presented] at goes
    generalize parse new settings (.element (writes.flatten.take pos) none) = result at goes
    obtain ⟨status, after, line'⟩ := result
    cases status with
    | error => simp [Protocol.turn]
    | getMoreData => exact absurd rfl goes
    | gotoNextSubParser => simp [Protocol.turn, protocol]

/-! ## The line that is streamed -/

section
variable (line : RequestLine (Multimap Bytes (List Bytes)))

def query : Bytes := if line.getVars.entries ≠ [] then questionMark :: UrlVars.streamTo line.getVars else []

def body : Bytes :=
  line.requestMethod ++ 32 :: (line.requestURI ++ (line.query ++ 32 :: line.httpVersion.getHTTPVersionString))

theorem stream_eq : line.stream = line.body ++ crlf := by
  simp only [stream, body, query, List.append_assoc, List.cons_append]

theorem streamTo_text (vars : Multimap Bytes (List Bytes)) :
    ∀ byte ∈ UrlVars.streamTo vars, isBlank byte = false ∧ byte ≠ 13 ∧ byte ≠ 10 ∧ byte ≠ 0 := by
  intro byte member
  have codes : ∀ byte : UInt8, Encoders.URL.isCode byte = true ∨ byte = ampersand ∨ byte = equalsSign →
      isBlank byte = false ∧ byte ≠ 13 ∧ byte ≠ 10 ∧ byte ≠ 0 := by
    apply Encoders.URL.forall_uint8
    decide +kernel
  exact codes byte (UrlVars.mem_streamTo member)

theorem query_text : ∀ byte ∈ line.query, isBlank byte = false ∧ byte ≠ 13 ∧ byte ≠ 10 := by
  intro byte member
  unfold query at member
  split at member
  · rcases List.mem_cons.mp member with rfl | inside
    · decide
    · have text := streamTo_text line.getVars byte inside
      exact ⟨text.1, text.2.1, text.2.2.1⟩
  · cases member

/-- What comes behind the URI does not belong to it. -/
theorem query_stop : ∃ stop more, line.query ++ 32 :: line.httpVersion.getHTTPVersionString = stop :: more ∧
    uriByte stop = false := by
  unfold query
  split
  · exact ⟨_, _, rfl, rfl⟩
  · exact ⟨_, _, rfl, rfl⟩

end

theorem takeWhile_uriByte (text : Bytes) :
    (text.takeWhile fun byte => !isBlank byte).takeWhile (· ≠ questionMark) = text.takeWhile uriByte := by
  rw [List.takeWhile_takeWhile]
  congr 1
  funext byte
  simp only [uriByte, decide_eq_true_eq, Bool.decide_and, Bool.and_comm, Bool.decide_eq_true]

section
variable {line : RequestLine (Multimap Bytes (List Bytes))}

/-- The text between two blanks that is taken for the target. -/
def target (rest : Bytes) : Bytes := (rest.dropWhile isBlank).takeWhile fun byte => !isBlank byte

theorem target_eq (clean : ∀ byte ∈ line.requestURI, uriByte byte = true)
    (present : line.requestURI ≠ [] ∨ line.getVars.entries ≠ []) :
    target (line.requestURI ++ (line.query ++ 32 :: line.httpVersion.getHTTPVersionString)) =
      line.requestURI ++ line.query := by
  have text : ∀ byte ∈ line.requestURI ++ line.query, isBlank byte = false := by
    intro byte member
    rcases List.mem_append.mp member with inside | inside
    · have kept := clean byte inside
      simp only [uriByte, Bool.and_eq_true, Bool.not_eq_true'] at kept
      exact kept.1
    · exact (line.query_text byte inside).1
  have filled : line.requestURI ++ line.query ≠ [] := by
    rcases present with uri | vars
    · exact fun empty => uri (List.append_eq_nil_iff.mp empty).1
    · simp [query, vars]
  obtain ⟨first, rest, same⟩ := List.exists_cons_of_ne_nil filled
  have head : isBlank first = false := by
    apply text
    rw [same]
    exact .head _
  have whole : ∀ byte ∈ line.requestURI ++ line.query, (!isBlank byte) = true := by
    intro byte member
    rw [text byte member]
    rfl
  rw [target, ← List.append_assoc, same, List.cons_append, List.dropWhile_cons_of_neg (by simp [head]),
    ← List.cons_append, ← same, takeWhile_stop (by rfl), List.takeWhile_eq_self_iff.mpr whole]

theorem read_version (version : Version) :
    Decoders.URL.decodeURLStr (((32 :: version.getHTTPVersionString).dropWhile isBlank).takeWhile uriByte) =
      version.getHTTPVersionString := by
  have plain := plain_version version
  have all : ∀ byte ∈ version.getHTTPVersionString, uriByte byte = true := by
    intro byte member
    obtain ⟨tab, space, mark, _⟩ := plain byte member
    simp [uriByte, isBlank, tab, space, mark]
  have literal : Decoders.URL.Literal 0 version.getHTTPVersionString := by
    apply Decoders.URL.literal_of_plain
    exact fun byte member => (plain byte member).2.2.2.2.2
  have behind : (32 :: version.getHTTPVersionString).dropWhile isBlank = version.getHTTPVersionString := rfl
  rw [behind, List.takeWhile_eq_self_iff.mpr all, Decoders.URL.decodeURLStr_eq_self_iff.mpr literal]

/-- A URI that is read as itself has nothing in it that the line gives a meaning. -/
theorem clean_of_read
    (read : Decoders.URL.decodeURLStr
      ((target (line.requestURI ++ (line.query ++ 32 :: line.httpVersion.getHTTPVersionString))).takeWhile
        (· ≠ questionMark)) = line.requestURI) :
    (∀ byte ∈ line.requestURI, uriByte byte = true) ∧ Decoders.URL.Literal 0 line.requestURI ∧
      (line.requestURI ≠ [] ∨ line.getVars.entries ≠ []) := by
  rw [target, takeWhile_uriByte] at read
  by_cases blank : line.requestURI.dropWhile isBlank = []
  · have all := List.dropWhile_eq_nil_iff.mp blank
    rw [List.dropWhile_append_of_pos all] at read
    by_cases vars : line.getVars.entries = []
    · -- the version would have to be the URI
      have version := read_version line.httpVersion
      have nothing : line.query = [] := by
        simp [query, vars]
      rw [nothing, List.nil_append, version] at read
      have first : (72 : UInt8) ∈ line.requestURI := by
        rw [← read]
        exact .head _
      exact absurd (all 72 first) (by decide)
    · have nothing : line.requestURI = [] := by
        rw [← read, query, if_pos vars]
        rfl
      rw [nothing]
      exact ⟨List.forall_mem_nil _, trivial, .inr vars⟩
  · obtain ⟨stop, more, behind, ends⟩ := line.query_stop
    rw [List.dropWhile_append, if_neg (by simpa using blank), behind, takeWhile_stop ends] at read
    have decoded := Decoders.URL.length_decodeURLStr_le ((line.requestURI.dropWhile isBlank).takeWhile uriByte)
    have taken := (List.takeWhile_prefix uriByte (l := line.requestURI.dropWhile isBlank)).length_le
    have dropped := length_dropWhile_le isBlank line.requestURI
    rw [read] at decoded
    have same : line.requestURI.dropWhile isBlank = line.requestURI :=
      (List.dropWhile_suffix isBlank).eq_of_length (by omega)
    rw [same] at read taken decoded
    have all := all_of_length_takeWhile decoded
    rw [List.takeWhile_eq_self_iff.mpr all] at read
    refine ⟨all, Decoders.URL.decodeURLStr_eq_self_iff.mp read, .inl ?_⟩
    intro empty
    rw [empty] at blank
    exact blank rfl

end

/-! ## Where the line ends -/

theorem not_crlf_append {text rest : Bytes} (left : ¬crlf <:+: text) (right : ¬crlf <:+: rest)
    (stop : rest.head? ≠ some 10) : ¬crlf <:+: text ++ rest := by
  rw [List.infix_append_iff]
  rintro (here | later | ⟨front, back, split, suffix, before⟩)
  · exact left here
  · exact right later
  · rcases front with _ | ⟨first, _ | ⟨next, front⟩⟩
    · apply right
      rw [split]
      exact before.isInfix
    · have same : back = [10] := by
        simp only [crlf, List.cons_append, List.nil_append, List.cons.injEq] at split
        exact split.2.symm
      rw [same] at before
      obtain ⟨more, rfl⟩ := before
      exact stop rfl
    · have same : back = [] := by
        simp only [crlf, List.cons_append, List.cons.injEq] at split
        exact (List.append_eq_nil_iff.mp split.2.2.symm).2
      apply left
      rw [split, same, List.append_nil]
      exact suffix.isInfix

theorem not_crlf_of_notMem {text : Bytes} (absent : 13 ∉ text) : ¬crlf <:+: text :=
  fun inside => absent (inside.subset (.head _))

section
variable {line : RequestLine (Multimap Bytes (List Bytes))}

/-- The stream has one end of a line, where neither the method nor the URI has one. -/
theorem occurrence_crlf (method : ¬crlf <:+: line.requestMethod) (uri : ¬crlf <:+: line.requestURI) :
    occurrence crlf line.stream = some line.body.length := by
  have plain := plain_version line.httpVersion
  have rest : 13 ∉ line.query ++ 32 :: line.httpVersion.getHTTPVersionString := by
    intro member
    rcases List.mem_append.mp member with query | version
    · exact (line.query_text 13 query).2.1 rfl
    · rcases List.mem_cons.mp version with space | version
      · exact absurd space (by decide)
      · exact (plain 13 version).2.2.2.1 rfl
  have stop : (line.query ++ 32 :: line.httpVersion.getHTTPVersionString).head? ≠ some 10 := by
    unfold query
    split <;> nofun
  have behind := not_crlf_append uri (not_crlf_of_notMem rest) stop
  have blank : ¬crlf <:+: 32 :: (line.requestURI ++ (line.query ++ 32 :: line.httpVersion.getHTTPVersionString)) := by
    rw [List.infix_cons_iff]
    rintro (⟨more, same⟩ | inside)
    · cases same
    · exact behind inside
  have body : ¬crlf <:+: line.body := not_crlf_append method blank nofun
  rw [line.stream_eq]
  apply occurrence_end (by decide)
  apply not_crlf_append body
  · decide
  · decide

/-- An end of a line inside of it cuts the line off. -/
theorem le_of_crlf {stream front : Bytes} {pos n : Nat} (occurs : occurrence crlf (stream.take n) = some pos)
    (inside : front ++ crlf <+: stream) : pos ≤ front.length := by
  have first := (occurrence_eq_some_iff.mp (occurrence_take_eq_some_iff.mp occurs).1).2.2
  obtain ⟨back, rfl⟩ := inside
  by_contra later
  apply first front.length (Nat.not_le.mp later)
  rw [List.append_assoc, List.drop_left' rfl]
  exact List.prefix_append _ _

end

/-! ## Requests that come through -/

/-- What a request line has to be to come through. The parts of the parameters that are written at once are chunks of
a container. -/
def Carried (line : RequestLine (Multimap Bytes (List Bytes))) : Prop :=
  line.stream.length ≤ maxURLSize ∧
    ((∀ byte ∈ line.requestMethod, isBlank byte = false) ∧ ¬crlf <:+: line.requestMethod ∧
      toUpper line.requestMethod = line.requestMethod) ∧
    ((∀ byte ∈ line.requestURI, uriByte byte = true) ∧ ¬crlf <:+: line.requestURI ∧
      Decoders.URL.Literal 0 line.requestURI) ∧
    (line.requestURI ≠ [] ∨ line.getVars.entries ≠ []) ∧
    UrlVars.FitsAll (.waitingName, 0) (BChunks.chunksOf (UrlVars.streamTo line.getVars)) ∧ UrlVars.Whole line.getVars

instance (line : RequestLine (Multimap Bytes (List Bytes))) : Decidable line.Carried :=
  inferInstanceAs (Decidable (_ ∧ (_ ∧ _ ∧ _) ∧ (_ ∧ _ ∧ _) ∧ _ ∧ _ ∧ _))

/-- The writes yield the request: its method, its URI and its variables, with no write to these failed. -/
def Yields (writes : List Bytes) (line : RequestLine (Multimap Bytes (List Bytes))) : Prop :=
  ∃ read, parsed writes = (.finished, read) ∧ read.requestMethod = line.requestMethod ∧
    read.requestURI = line.requestURI ∧ read.getVars.failedWriteState = false ∧
    read.getVars.parser.user.vars = line.getVars.map List.flatten

section
variable {line : RequestLine (Multimap Bytes (List Bytes))} (stored : UrlVars.Stored line.getVars)
include stored

theorem vars_iff (short : line.stream.length ≤ maxURLSize) (clean : ∀ byte ∈ line.requestURI, uriByte byte = true)
    {read : RequestLine GetVars} (fresh : read.getVars = ⟨UrlVars.parser, false⟩)
    (targeted : read.requestURI = line.requestURI ++ line.query) :
    (read.parseURI.getVars.failedWriteState = false ∧
        read.parseURI.getVars.parser.user.vars = line.getVars.map List.flatten) ↔
      UrlVars.FitsAll (.waitingName, 0) (BChunks.chunksOf (UrlVars.streamTo line.getVars)) ∧
        UrlVars.Whole line.getVars := by
  have plain : questionMark ∉ line.requestURI := by
    intro member
    have kept := clean _ member
    exact absurd kept (by decide)
  by_cases vars : line.getVars.entries = []
  · have nothing : line.query = [] := by
      simp [query, vars]
    rw [nothing, List.append_nil] at targeted
    rw [getVars_parseURI_plain read (by rwa [targeted]), fresh]
    have stream : UrlVars.streamTo line.getVars = [] := by
      rw [UrlVars.streamTo, vars]
      rfl
    have whole : UrlVars.Whole line.getVars := by
      intro entry member
      rw [vars] at member
      cases member
    have same : UrlVars.parser.user.vars = line.getVars.map List.flatten := by
      apply Multimap.ext
      simp only [Multimap.map, vars, List.map_nil]
      rfl
    simp only [stream, whole, same, and_true, true_iff]
    decide
  · have some : line.query = questionMark :: UrlVars.streamTo line.getVars := if_pos vars
    rw [some] at targeted
    have text : 0 ∉ UrlVars.streamTo line.getVars := fun member => (streamTo_text line.getVars 0 member).2.2.2 rfl
    obtain ⟨failed, read⟩ := getVars_parseURI_query read plain text targeted fresh
    have bound : (UrlVars.streamTo line.getVars).length ≤ 2 ^ 20 := by
      have size : line.stream.length ≤ 128 * 1024 := short
      simp only [stream_eq, body, some, List.length_append, List.length_cons] at size
      omega
    rw [failed, read, ← UrlVars.parsed_streamTo_iff stored (BChunks.chunksOf_filled _) (BChunks.flatten_chunksOf bound)]
    rw [Prod.ext_iff]
    simp

omit stored in
/-- A line that is parsed for its own method and URI is parsed whole. -/
theorem whole_of_read {pos : Nat} {blank : UInt8} {rest : Bytes}
    (occurs : occurrence crlf (line.stream.take maxURLSize) = some pos)
    (parts : (line.stream.take pos).dropWhile (fun byte => !isBlank byte) = blank :: rest)
    (method : toUpper ((line.stream.take pos).takeWhile fun byte => !isBlank byte) = line.requestMethod)
    (uri : Decoders.URL.decodeURLStr ((target rest).takeWhile (· ≠ questionMark)) = line.requestURI) :
    ¬crlf <:+: line.requestMethod ∧ ¬crlf <:+: line.requestURI := by
  have taken := List.length_take_le pos line.stream
  have methodLength := congrArg List.length method
  rw [Vars.length_toUpper] at methodLength
  have split := congrArg List.length
    (List.takeWhile_append_dropWhile (p := fun byte => !isBlank byte) (l := line.stream.take pos))
  rw [parts, List.length_append, List.length_cons] at split
  have uriLength := Decoders.URL.length_decodeURLStr_le ((target rest).takeWhile (· ≠ questionMark))
  have cut := (List.takeWhile_prefix (· ≠ questionMark) (l := target rest)).length_le
  have kept := (List.takeWhile_prefix (fun byte => !isBlank byte) (l := rest.dropWhile isBlank)).length_le
  have dropped := length_dropWhile_le isBlank rest
  rw [uri] at uriLength
  change (target rest).length ≤ _ at kept
  constructor
  · rintro ⟨front, back, same⟩
    have short : pos ≤ front.length := by
      apply le_of_crlf occurs
      rw [stream_eq, body, ← same]
      simp only [List.append_assoc, List.prefix_append_right_inj, List.prefix_append]
    have length := congrArg List.length same
    simp only [List.length_append, crlf, List.length_cons] at length
    omega
  · rintro ⟨front, back, same⟩
    have short : pos ≤ (line.requestMethod ++ 32 :: front).length := by
      apply le_of_crlf occurs
      rw [stream_eq, body, ← same]
      simp only [List.append_assoc, List.cons_append, List.prefix_append_right_inj, List.cons_prefix_cons, true_and,
        List.prefix_append]
    have length := congrArg List.length same
    simp only [List.length_append, crlf, List.length_cons] at length short
    omega

omit stored in
theorem take_body (line : RequestLine (Multimap Bytes (List Bytes))) : line.stream.take line.body.length = line.body := by
  rw [stream_eq, List.take_left' rfl]

omit stored in
theorem body_parts (noBlank : ∀ byte ∈ line.requestMethod, isBlank byte = false) :
    (line.body.takeWhile fun byte => !isBlank byte) = line.requestMethod ∧
      (line.body.dropWhile fun byte => !isBlank byte) =
        32 :: (line.requestURI ++ (line.query ++ 32 :: line.httpVersion.getHTTPVersionString)) := by
  have all : ∀ byte ∈ line.requestMethod, (!isBlank byte) = true := by
    intro byte member
    rw [noBlank byte member]
    rfl
  rw [body, takeWhile_stop rfl, dropWhile_stop rfl, List.takeWhile_eq_self_iff.mpr all,
    List.dropWhile_eq_nil_iff.mpr all]
  exact ⟨rfl, rfl⟩

/-- A request comes through where it is carried, and nowhere else. -/
theorem yields_iff {writes : List Bytes} (filled : ∀ buf ∈ writes, buf ≠ []) (stream : writes.flatten = line.stream) :
    Yields writes line ↔ line.Carried := by
  constructor
  · rintro ⟨read, finished, method, uri, vars⟩
    obtain ⟨pos, occurs, after, parsed⟩ := (parsed_finished_iff filled).mp finished
    rw [stream] at occurs parsed
    cases parts : (line.stream.take pos).dropWhile fun byte => !isBlank byte with
    | nil =>
      have refused := parse_single parts
      rw [parsed] at refused
      cases refused
    | cons blank rest =>
      obtain ⟨httpVersion, parsed'⟩ := parse_line parts
      rw [parsed] at parsed'
      cases parsed'
      simp only [requestMethod_parseURI, requestURI_parseURI] at method uri
      obtain ⟨noCrlf, noCrlf'⟩ := whole_of_read occurs parts method uri
      obtain ⟨first, _, fits⟩ := occurrence_take_eq_some_iff.mp occurs
      rw [occurrence_crlf noCrlf noCrlf', Option.some.injEq] at first
      subst first
      have short : line.stream.length ≤ maxURLSize := by
        rwa [stream_eq, List.length_append]
      rw [take_body] at method parts vars
      have noBlank : ∀ byte ∈ line.requestMethod, isBlank byte = false := by
        have length := congrArg List.length method
        rw [Vars.length_toUpper, body, takeWhile_stop rfl] at length
        intro byte member
        simpa using all_of_length_takeWhile (Nat.le_of_eq length.symm) byte member
      obtain ⟨front, back⟩ := body_parts noBlank
      rw [back] at parts
      cases parts
      obtain ⟨clean, literal, present⟩ := clean_of_read uri
      rw [front] at method vars
      exact ⟨short, ⟨noBlank, noCrlf, method⟩, ⟨clean, noCrlf', literal⟩, present,
        (vars_iff stored short clean rfl (target_eq clean present)).mp vars⟩
  · rintro ⟨short, ⟨noBlank, noCrlf, upper⟩, ⟨clean, noCrlf', literal⟩, present, vars⟩
    have occurs : occurrence crlf (line.stream.take maxURLSize) = some line.body.length := by
      apply occurrence_take_eq_some_iff.mpr
      refine ⟨occurrence_crlf noCrlf noCrlf', ?_⟩
      rw [stream_eq, List.length_append] at short
      change _ + 2 ≤ _ at short
      have two : crlf.length = 2 := rfl
      omega
    obtain ⟨front, back⟩ := body_parts noBlank
    obtain ⟨httpVersion, parsed⟩ := parse_line back
    have targeted := target_eq clean present
    have path : (line.requestURI ++ line.query).takeWhile (· ≠ questionMark) = line.requestURI := by
      have kept : ∀ byte ∈ line.requestURI, decide (byte ≠ questionMark) = true := by
        intro byte member
        have uriByte := clean byte member
        simp only [RequestLine.uriByte, Bool.and_eq_true] at uriByte
        exact uriByte.2
      rw [List.takeWhile_append_of_pos kept, query]
      split <;> simp
    have text : writes.flatten.take line.body.length = line.body := by
      rw [stream, take_body]
    have parsed' := (congrArg (fun text => parse new settings (.element text none)) text).trans parsed
    rw [← stream] at occurs
    refine ⟨_, (parsed_finished_iff filled).mpr ⟨_, occurs, settings, parsed'⟩, ?_, ?_, ?_⟩
    · rw [requestMethod_parseURI, front, upper]
    · rw [requestURI_parseURI]
      change Decoders.URL.decodeURLStr ((target _).takeWhile (· ≠ questionMark)) = _
      rw [targeted, path, Decoders.URL.decodeURLStr_eq_self_iff.mpr literal]
    · exact (vars_iff stored short clean rfl targeted).mpr vars

end

/-- `GET /a` with the variable `A ` of the value `=`. -/
def getLine : RequestLine (Multimap Bytes (List Bytes)) :=
  ⟨[71, 69, 84], [47, 97], [], .new, ⟨[([65, 32], [[61]])], by decide⟩⟩

theorem yields_iff_get : Yields [getLine.stream.take 9, getLine.stream.drop 9] getLine := by
  have stored : UrlVars.Stored getLine.getVars := by decide +kernel
  have filled : ∀ buf ∈ [getLine.stream.take 9, getLine.stream.drop 9], buf ≠ [] := by decide +kernel
  have stream : [getLine.stream.take 9, getLine.stream.drop 9].flatten = getLine.stream := by decide +kernel
  have carried : getLine.Carried := by decide +kernel
  exact (yields_iff stored filled stream).mpr carried

/-- `GET /a b` without variables. -/
def spacedLine : RequestLine (Multimap Bytes (List Bytes)) := ⟨[71, 69, 84], [47, 97, 32, 98], [], .new, .empty⟩

/-- The space in the URI ends the target. -/
theorem yields_fails : ¬Yields [spacedLine.stream] spacedLine ∧ (parsed [spacedLine.stream]).1 = .finished ∧
    (parsed [spacedLine.stream]).2.requestURI = [47, 97] := by
  have read : (parsed [spacedLine.stream]).1 = .finished ∧ (parsed [spacedLine.stream]).2.requestURI = [47, 97] := by
    decide +kernel
  refine ⟨?_, read⟩
  rintro ⟨line, finished, _, uri, _⟩
  rw [finished] at read
  rw [read.2] at uri
  exact absurd uri (by decide)

end RequestLine

end Mantids.HTTP
