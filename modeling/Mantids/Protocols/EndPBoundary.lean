import Mantids.Memory.Reader
import Mantids.Protocols.MimeMessage

/-! What stands behind a boundary (`mime_sub_endpboundary.cpp`): the last one, another part, or an error. -/

set_option autoImplicit false

namespace Mantids.MIME.EndPBoundary

open Memory Memory.Streams Library

/-- Any number of blanks may stand before the delimiter. -/
def blanks (stream : Bytes) : Nat := (stream.takeWhile HTTP.RequestLine.isBlank).length

def END : Bytes := dashes ++ crlf

def parse : Parse EndPStat := fun status settings presented =>
  match presented with
  | .element _ delimiterFound =>
    if delimiterFound = some END then (.gotoNextSubParser, settings, .statEnd)
    else if delimiterFound = some crlf then (.gotoNextSubParser, settings, .statContinue)
    else (.error, settings, .statError)
  | .direct _ _ => (.getMoreData, settings, status)

/-- The sub parser on its own: it is done with where it goes on to the next one. -/
def protocol (fresh : Fresh) : Protocol EndPStat where
  parse := parse
  changeToNextParser := fun status => some (none, status)
  fresh := fun _ => fresh
  maxTTL := 4096

/-- The message's `parse()` in this state. -/
theorem parse_message (message : Message) (endpoint : message.currentState = .endpoint) (settings : Settings)
    (element : Element) :
    Message.parse message settings element.presented =
      ((parse message.subEndPBoundary settings element.presented).1, settings,
        { message with
          parsed := message.parsed + 1
          subEndPBoundary := (parse message.subEndPBoundary settings element.presented).2.2 }) := by
  unfold Message.parse Element.presented parse END
  by_cases ended : element.delimiterFound = some (dashes ++ crlf)
  · simp only [endpoint, ended, if_true]
  · by_cases continued : element.delimiterFound = some crlf
    · simp only [endpoint, continued, if_true]
      rfl
    · simp only [endpoint, ended, continued, if_false]

/-- The writes after a `reset`, and the end of the stream where none of them was enough. -/
def outcome (fresh : Fresh) (writes : List Bytes) : Outcome EndPStat :=
  (protocol fresh).run ⟨some (.new Message.endPBoundarySettings), .statUninitialized⟩ (writes ++ [[]])

/-- The status, and how many bytes were consumed, unless the parser failed. -/
def answer (fresh : Fresh) (writes : List Bytes) : Option (EndPStat × Nat) :=
  if (outcome fresh writes).verdict = .finished then
    some ((outcome fresh writes).user, (outcome fresh writes).consumed)
  else none

/-- What is to be answered to a stream. -/
def expected (stream : Bytes) : Option (EndPStat × Nat) :=
  if END <+: stream.drop (blanks stream) then some (.statEnd, blanks stream + 4)
  else if crlf <+: stream.drop (blanks stream) then some (.statContinue, blanks stream + 2)
  else none

/-- How many bytes are there when the first `n` of them are. -/
def arrived : (n : Nat) → List Bytes → Nat
  | _, [] => 0
  | n, buf :: later => if n ≤ buf.length then buf.length else buf.length + arrived (n - buf.length) later

/-- The delimiter ends within the sixteen bytes, and what arrives with a CR LF has no other one for the end; and
an error has no CR LF there at all. -/
def Spared (writes : List Bytes) : Prop :=
  let stream := writes.flatten
  let pos := blanks stream
  if END <+: stream.drop pos then pos + 4 ≤ 16
  else if crlf <+: stream.drop pos then pos + 2 ≤ 16 ∧ ¬END <:+: stream.take (min 16 (arrived (pos + 2) writes))
  else ¬crlf <:+: stream.take 16

/-! ## What is found -/

section found

variable {text : Bytes}

theorem listed_eq (text : Bytes) : Message.endPBoundarySettings.listedElement text =
    (firstListed [END, crlf] (text.take 16)).map fun (pos, delimiterFound) =>
      ⟨text.take pos, some delimiterFound, pos + delimiterFound.length⟩ := by
  unfold Settings.listedElement Settings.listed
  simp only [Message.endPBoundarySettings, Option.map_map]
  rfl

/-- Both delimiters end with the second one. -/
theorem crlf_of_end (ends : END <:+: text) : crlf <:+: text := by
  apply List.IsInfix.trans _ ends
  exact ⟨dashes, [], rfl⟩

theorem occurrence_none_iff {needle : Bytes} (filled : needle ≠ []) : occurrence needle text = none ↔ ¬needle <:+: text := by
  rw [occurrence_eq_none_iff]
  constructor
  · intro none inside
    obtain ⟨before, after, whole⟩ := inside
    have here : needle <+: text.drop before.length := by
      rw [← whole, List.append_assoc, List.drop_left]
      exact List.prefix_append _ _
    apply none before.length _ here
    rw [← whole, List.length_append, List.length_append]
    have some := List.length_pos_of_ne_nil filled
    omega
  · intro absent pos _ here
    exact absent (here.isInfix.trans (List.drop_suffix pos text).isInfix)

theorem firstListed_none_iff : firstListed [END, crlf] text = none ↔ ¬crlf <:+: text := by
  rw [firstListed_eq_none_iff]
  simp only [List.forall_mem_cons, List.not_mem_nil, false_imp_iff, implies_true, and_true]
  rw [occurrence_none_iff (by decide), occurrence_none_iff (by decide)]
  exact ⟨And.right, fun absent => ⟨fun ends => absent (crlf_of_end ends), absent⟩⟩

/-- The end is looked for first. -/
theorem firstListed_end {pos : Nat} (ends : occurrence END text = some pos) :
    firstListed [END, crlf] text = some (pos, END) := by
  rw [firstListed_eq_some_iff]
  exact ⟨[], [crlf], rfl, ends, by simp⟩

theorem firstListed_crlf {pos : Nat} (absent : ¬END <:+: text) (here : occurrence crlf text = some pos) :
    firstListed [END, crlf] text = some (pos, crlf) := by
  rw [firstListed_eq_some_iff]
  refine ⟨[END], [], rfl, here, ?_⟩
  intro other member
  rw [List.mem_singleton.mp member]
  exact (occurrence_none_iff (by decide)).mpr absent

end found

/-! ## The writes -/

/-- What is found in the writes, behind what waits. -/
def found (pending : Bytes) : List Bytes → Option (Nat × Bytes)
  | [] => none
  | buf :: later =>
    match firstListed [END, crlf] ((pending ++ buf).take 16) with
    | some here => some here
    | none => if 16 < (pending ++ buf).length then none else found (pending ++ buf) later

def statusOf (delimiterFound : Bytes) : EndPStat := if delimiterFound = END then .statEnd else .statContinue

theorem bounded : Message.endPBoundarySettings.Bounded := ⟨.inr rfl, by decide⟩

theorem read_found (fresh : Fresh) (user : EndPStat) {delimiterFound : Bytes}
    (known : delimiterFound = END ∨ delimiterFound = crlf) (parsedBuffer : Bytes) :
    (protocol fresh).read user Message.endPBoundarySettings (.element parsedBuffer (some delimiterFound)) =
      (.finished, ⟨none, statusOf delimiterFound⟩) := by
  rcases known with same | same <;> subst same <;> rfl

section writes

variable (fresh : Fresh) (user : EndPStat) {p : SubParser} {pending : Bytes}
  (holds : Holds p Message.endPBoundarySettings pending)
include holds

/-- A full buffer takes no more. -/
theorem write_full (full : pending.length = 16) {buf : Bytes} (filled : buf ≠ []) (turns : Nat) :
    ((protocol fresh).parseData (turns + 1) ⟨some p, user⟩ buf).verdict = .failed := by
  have turn := write_turn parse user holds bounded filled fresh
  have missing := @listedElement_of_full _ _ _ buf holds bounded full
  generalize result : writeIntoParser parse user fresh p buf = written at turn
  cases turn with
  | element listed _ =>
    rw [missing] at listed
    cases listed
  | more _ below _ =>
    rw [full] at below
    exact absurd below (Nat.lt_irrefl 16)
  | full _ _ _ => rw [parseData_refused (protocol fresh) turns result]

theorem write_found {buf : Bytes} (filled : buf ≠ []) {pos : Nat} {delimiterFound : Bytes}
    (here : firstListed [END, crlf] ((pending ++ buf).take 16) = some (pos, delimiterFound)) :
    ∃ parsed, (protocol fresh).write ⟨some p, user⟩ buf = parsed ∧ parsed.verdict = .finished ∧
      parsed.parser.user = statusOf delimiterFound ∧
      pending.length + parsed.consumed = pos + delimiterFound.length := by
  have turn := write_turn parse user holds bounded filled fresh
  have known : delimiterFound = END ∨ delimiterFound = crlf := by
    simpa using (occurrence_of_firstListed here).1
  have element := listed_eq (pending ++ buf)
  rw [here] at element
  generalize result : writeIntoParser parse user fresh p buf = written at turn
  cases turn with
  | @element other taken listed count =>
    rw [element] at listed
    cases listed
    have read := read_found fresh user known ((pending ++ buf).take pos)
    rw [← holds.configured] at result read
    refine ⟨_, parseData_delivered (protocol fresh) 4096 result read, ?_⟩
    rw [if_neg (fun both => by cases both.1)]
    exact ⟨rfl, rfl, count⟩
  | more missing _ _ =>
    rw [element] at missing
    cases missing
  | full missing _ _ =>
    rw [element] at missing
    cases missing

theorem write_missing {buf : Bytes} (filled : buf ≠ [])
    (none : firstListed [END, crlf] ((pending ++ buf).take 16) = none) :
    (16 < (pending ++ buf).length ∧ ((protocol fresh).write ⟨some p, user⟩ buf).verdict = .failed) ∨
      ((pending ++ buf).length ≤ 16 ∧ ∃ p' calls, Holds p' Message.endPBoundarySettings (pending ++ buf) ∧
        (protocol fresh).write ⟨some p, user⟩ buf = ⟨.open, ⟨some p', user⟩, buf.length, [], calls⟩) := by
  have turn := write_turn parse user holds bounded filled fresh
  have target : (Message.endPBoundarySettings.parseDataTargetSize : Nat) = 16 := rfl
  have fits := holds.fits
  have missing := listed_eq (pending ++ buf)
  rw [none] at missing
  have length : (pending ++ buf).length = pending.length + buf.length := List.length_append
  have some := List.length_pos_of_ne_nil filled
  generalize result : writeIntoParser parse user fresh p buf = written at turn
  cases turn with
  | element listed _ =>
    rw [missing] at listed
    cases listed
  | full _ full _ =>
    left
    refine ⟨by omega, ?_⟩
    exact congrArg Parsed.verdict (parseData_refused (protocol fresh) 4096 result)
  | @more p' _ below holds' =>
    have step := parseData_more (protocol fresh) 4096 result
    rw [target, List.length_take] at step
    by_cases long : 16 < (pending ++ buf).length
    case pos =>
      left
      refine ⟨long, ?_⟩
      rw [if_pos (by omega)] at step
      rw [Protocol.write, show (protocol fresh).maxTTL + 1 = 4096 + 1 from rfl, step]
      have rest : buf.drop (min (16 - pending.length) buf.length) ≠ [] := by
        rw [ne_eq, List.drop_eq_nil_iff]
        omega
      have whole : ((pending ++ buf).take Message.endPBoundarySettings.parseDataTargetSize).length = 16 := by
        rw [target, List.length_take]
        omega
      exact write_full fresh user holds' whole rest 4095
    case neg =>
      right
      refine ⟨by omega, p', [(p, buf)], ?_, ?_⟩
      · rwa [target, List.take_of_length_le (by omega)] at holds'
      · rw [if_neg (by omega)] at step
        rw [Protocol.write, show (protocol fresh).maxTTL + 1 = 4096 + 1 from rfl, step]
        rw [Nat.min_eq_right (by omega)]

end writes

/-- Every write is looked at, and then the end of the stream. -/
theorem run_found (fresh : Fresh) (user : EndPStat) {writes : List Bytes} (filled : ∀ buf ∈ writes, buf ≠ [])
    {p : SubParser} {pending : Bytes} (holds : Holds p Message.endPBoundarySettings pending) :
    let outcome := (protocol fresh).run ⟨some p, user⟩ (writes ++ [[]])
    (found pending writes = none → outcome.verdict = .failed) ∧
      ∀ pos delimiterFound, found pending writes = some (pos, delimiterFound) →
        outcome.verdict = .finished ∧ outcome.user = statusOf delimiterFound ∧
          pending.length + outcome.consumed = pos + delimiterFound.length := by
  induction writes generalizing p pending with
  | nil =>
    have ended := write_end parse user holds bounded fresh
    refine ⟨fun _ => ?_, fun pos delimiterFound impossible => by cases impossible⟩
    have result : writeIntoParser (protocol fresh).parse user ((protocol fresh).fresh user) p [] =
        present parse user { p with streamEnded := true } (.element pending (some [])) 0 := ended
    have settings : SubParser.settings { p with streamEnded := true } = Message.endPBoundarySettings := holds.configured
    have step (turns : Nat) : ((protocol fresh).parseData (turns + 1) ⟨some p, user⟩ []).verdict = .failed := by
      simp only [Protocol.parseData, result, present, settings]
      rfl
    have failed : ((protocol fresh).write ⟨some p, user⟩ []).verdict = .failed := step 4096
    rw [List.nil_append, Protocol.run, followed_of_not_open (by rw [failed]; decide)]
    exact failed
  | cons buf later ih =>
    obtain ⟨some, others⟩ := List.forall_mem_cons.mp filled
    rw [List.cons_append, Protocol.run, found]
    cases here : firstListed [END, crlf] ((pending ++ buf).take 16) with
    | some listed =>
      obtain ⟨pos, delimiterFound⟩ := listed
      obtain ⟨parsed, written, finished, user', count⟩ := write_found fresh user holds some here
      have ended : parsed.verdict ≠ .open := by
        rw [finished]
        decide
      rw [written, followed_of_not_open ended]
      refine ⟨fun impossible => (by cases impossible), fun other another same => ?_⟩
      cases same
      exact ⟨finished, user', count⟩
    | none =>
      rcases write_missing fresh user holds some here with ⟨long, failed⟩ | ⟨short, p', calls, holds', written⟩
      · rw [followed_of_not_open (by rw [failed]; decide)]
        dsimp only
        rw [if_pos long]
        exact ⟨fun _ => failed, fun pos delimiterFound impossible => by cases impossible⟩
      · dsimp only
        rw [written, followed_open, if_neg (Nat.not_lt.mpr short)]
        obtain ⟨fails, finds⟩ := ih others holds'
        refine ⟨fails, fun pos delimiterFound same => ?_⟩
        obtain ⟨finished, user', count⟩ := finds pos delimiterFound same
        refine ⟨finished, user', ?_⟩
        rw [List.length_append] at count
        rw [← count, Outcome.after, Nat.add_assoc]

/-- The parser answers or fails, and the answer is that of what is found. -/
theorem answer_found (fresh : Fresh) {writes : List Bytes} (filled : ∀ buf ∈ writes, buf ≠ []) :
    ((outcome fresh writes).verdict = .finished ∨ (outcome fresh writes).verdict = .failed) ∧
      answer fresh writes = (found [] writes).map fun here => (statusOf here.2, here.1 + here.2.length) := by
  have holds : Holds (.new Message.endPBoundarySettings) Message.endPBoundarySettings [] := holds_new bounded.buffers
  obtain ⟨fails, finds⟩ := run_found fresh .statUninitialized filled holds
  unfold answer
  cases here : found [] writes with
  | none =>
    have failed : (outcome fresh writes).verdict = .failed := fails here
    rw [failed]
    exact ⟨.inr rfl, rfl⟩
  | some listed =>
    obtain ⟨finished, user, count⟩ := finds listed.1 listed.2 here
    have verdict : (outcome fresh writes).verdict = .finished := finished
    have status : (outcome fresh writes).user = statusOf listed.2 := user
    have consumed : (outcome fresh writes).consumed = listed.1 + listed.2.length := by
      rw [← count, List.length_nil, Nat.zero_add]
      rfl
    rw [if_pos verdict, status, consumed]
    exact ⟨.inl verdict, rfl⟩

/-! ## What the writes come to -/

theorem le_arrived {n : Nat} {writes : List Bytes} (there : n ≤ writes.flatten.length) : n ≤ arrived n writes := by
  induction writes generalizing n with
  | nil => exact there
  | cons buf later ih =>
    rw [List.flatten_cons, List.length_append] at there
    rw [arrived]
    split
    · assumption
    · have rest := @ih (n - buf.length) (by omega)
      omega

theorem found_none_iff {writes : List Bytes} {pending : Bytes} (short : pending.length ≤ 16) (absent : ¬crlf <:+: pending) :
    found pending writes = none ↔ ¬crlf <:+: (pending ++ writes.flatten).take 16 := by
  induction writes generalizing pending with
  | nil => simpa [found, List.take_of_length_le short] using absent
  | cons buf later ih =>
    rw [found, List.flatten_cons, ← List.append_assoc]
    cases here : firstListed [END, crlf] ((pending ++ buf).take 16) with
    | some listed =>
      have inside : crlf <:+: (pending ++ buf).take 16 := by
        by_contra none
        rw [firstListed_none_iff.mpr none] at here
        cases here
      have whole : (pending ++ buf).take 16 <+: (pending ++ buf ++ later.flatten).take 16 :=
        (List.prefix_append _ _).take 16
      simp only [reduceCtorEq, false_iff, not_not]
      exact inside.trans whole.isInfix
    | none =>
      have outside := firstListed_none_iff.mp here
      dsimp only
      split
      case isTrue long =>
        rw [List.take_append_of_le_length (Nat.le_of_lt long)]
        exact iff_of_true rfl outside
      case isFalse fits =>
        rw [Nat.not_lt] at fits
        rw [List.take_of_length_le fits] at outside
        exact ih fits outside

/-- The first CR LF is looked at with what arrives with it. -/
theorem found_arrived {writes : List Bytes} {pending : Bytes} (short : pending.length ≤ 16) (absent : ¬crlf <:+: pending)
    {pos : Nat} (occurs : occurrence crlf ((pending ++ writes.flatten).take 16) = some pos) :
    found pending writes = firstListed [END, crlf]
      ((pending ++ writes.flatten).take (min 16 (pending.length + arrived (pos + 2 - pending.length) writes))) := by
  induction writes generalizing pending with
  | nil =>
    rw [List.flatten_nil, List.append_nil, List.take_of_length_le short,
      (occurrence_none_iff (by decide)).mpr absent] at occurs
    cases occurs
  | cons buf later ih =>
    rw [List.flatten_cons, ← List.append_assoc] at occurs ⊢
    have length : (pending ++ buf).length = pending.length + buf.length := List.length_append
    obtain ⟨first, _, fits⟩ := occurrence_take_eq_some_iff.mp occurs
    change pos + 2 ≤ 16 at fits
    rw [found, arrived]
    by_cases complete : pos + 2 - pending.length ≤ buf.length
    case pos =>
      have here : occurrence crlf ((pending ++ buf).take 16) = some pos := by
        have cut : (pending ++ buf).take 16 = (pending ++ buf ++ later.flatten).take (min 16 (pending ++ buf).length) := by
          rw [← List.take_take, List.take_left' rfl]
        rw [cut, occurrence_take_eq_some_iff]
        exact ⟨first, by omega, by change pos + 2 ≤ _; omega⟩
      rw [if_pos complete, ← length, ← List.take_take, List.take_left' rfl]
      cases listed : firstListed [END, crlf] ((pending ++ buf).take 16) with
      | some other => rfl
      | none =>
        rw [(firstListed_eq_none_iff.mp listed) crlf (by simp)] at here
        cases here
    case neg =>
      have none : occurrence crlf (pending ++ buf) = none := by
        cases earlier : occurrence crlf (pending ++ buf) with
        | none => rfl
        | some other =>
          have same := occurrence_append (t := later.flatten) earlier
          have ends := occurrence_end_le earlier
          rw [first] at same
          cases same
          change pos + 2 ≤ _ at ends
          omega
      have outside := (occurrence_none_iff (by decide)).mp none
      have total : (pending ++ buf).length ≤ 16 := by omega
      have unlisted : firstListed [END, crlf] ((pending ++ buf).take 16) = .none := by
        rw [List.take_of_length_le total]
        exact firstListed_none_iff.mpr outside
      rw [unlisted, if_neg complete]
      dsimp only
      rw [if_neg (by omega), ih total outside occurs, length, Nat.add_assoc, Nat.sub_sub]

/-! ## What is expected -/

section stream

variable {stream : Bytes}

theorem not_mem_blanks {byte : UInt8} (visible : HTTP.RequestLine.isBlank byte = false) :
    byte ∉ stream.take (blanks stream) := by
  intro member
  rw [blanks, ← List.prefix_iff_eq_take.mp (List.takeWhile_prefix _)] at member
  rw [List.mem_takeWhile_imp member] at visible
  cases visible

theorem length_blanks : (stream.take (blanks stream)).length = blanks stream := by
  rw [List.length_take]
  exact Nat.min_eq_left (List.takeWhile_prefix _).length_le

theorem occurrence_end (ends : END <+: stream.drop (blanks stream)) :
    occurrence END stream = some (blanks stream) ∧ occurrence crlf stream = some (blanks stream + 2) := by
  obtain ⟨after, whole⟩ := ends
  have absent : 13 ∉ stream.take (blanks stream) ++ dashes := by
    rw [List.mem_append]
    exact fun member => member.elim (not_mem_blanks (by decide)) (by decide)
  have front : 45 ∉ stream.take (blanks stream) := not_mem_blanks (by decide)
  have first := occurrence_of_notMem front (45 :: crlf) after
  have second := occurrence_of_notMem absent [10] after
  have joined : stream.take (blanks stream) ++ (END ++ after) = stream := by
    rw [whole, List.take_append_drop]
  rw [List.length_append, length_blanks] at second
  rw [length_blanks] at first
  constructor
  · rw [← first]
    exact congrArg _ joined.symm
  · rw [List.append_assoc] at second
    exact (congrArg (occurrence crlf) joined.symm).trans second

theorem occurrence_continue (continues : crlf <+: stream.drop (blanks stream)) :
    occurrence crlf stream = some (blanks stream) := by
  obtain ⟨after, whole⟩ := continues
  have front : 13 ∉ stream.take (blanks stream) := not_mem_blanks (by decide)
  have first := occurrence_of_notMem front [10] after
  have joined : stream.take (blanks stream) ++ (crlf ++ after) = stream := by
    rw [whole, List.take_append_drop]
  rw [length_blanks] at first
  rw [← first]
  exact congrArg _ joined.symm

/-- A CR LF that does not end within the buffer is not seen. -/
theorem occurrence_late {pos : Nat} (occurs : occurrence crlf stream = some pos) (late : ¬pos + 2 ≤ 16) :
    ¬crlf <:+: stream.take 16 := by
  rw [← occurrence_none_iff (by decide)]
  cases early : occurrence crlf (stream.take 16) with
  | none => rfl
  | some other =>
    obtain ⟨same, _, fits⟩ := occurrence_take_eq_some_iff.mp early
    rw [occurs] at same
    cases same
    exact absurd fits late

end stream

/-- The parser answers or fails, and what is expected is answered exactly where the delimiter is met in time. -/
theorem end_boundary_iff (fresh : Fresh) {writes : List Bytes} (filled : ∀ buf ∈ writes, buf ≠ []) :
    ((outcome fresh writes).verdict = .finished ∨ (outcome fresh writes).verdict = .failed) ∧
      (answer fresh writes = expected writes.flatten ↔ Spared writes) := by
  obtain ⟨verdict, answered⟩ := answer_found fresh filled
  refine ⟨verdict, ?_⟩
  have none := @found_none_iff writes [] (Nat.zero_le 16) (by decide)
  have arrives {pos : Nat} := @found_arrived writes [] (Nat.zero_le 16) (by decide) pos
  simp only [List.nil_append, List.length_nil, Nat.zero_add, Nat.sub_zero] at none arrives
  rw [answered, expected, Spared]
  generalize whole : writes.flatten = stream at none arrives
  have total : writes.flatten.length = stream.length := congrArg List.length whole
  by_cases ends : END <+: stream.drop (blanks stream)
  case pos =>
    obtain ⟨first, second⟩ := occurrence_end ends
    rw [if_pos ends, if_pos ends]
    by_cases fits : blanks stream + 4 ≤ 16
    case pos =>
      have bound := occurrence_end_le second
      change blanks stream + 2 + 2 ≤ _ at bound
      have there := @le_arrived (blanks stream + 2 + 2) writes (by omega)
      have seen : occurrence crlf (stream.take 16) = some (blanks stream + 2) :=
        occurrence_take_eq_some_iff.mpr ⟨second, by omega, fits⟩
      have complete : occurrence END (stream.take (min 16 (arrived (blanks stream + 2 + 2) writes))) =
          some (blanks stream) :=
        occurrence_take_eq_some_iff.mpr ⟨first, by omega, by change blanks stream + 4 ≤ _; omega⟩
      rw [arrives seen, firstListed_end complete]
      exact iff_of_true rfl fits
    case neg =>
      rw [none.mpr (occurrence_late second fits)]
      exact iff_of_false (fun same => by cases same) fits
  case neg =>
    rw [if_neg ends, if_neg ends]
    by_cases continues : crlf <+: stream.drop (blanks stream)
    case pos =>
      have first := occurrence_continue continues
      rw [if_pos continues, if_pos continues]
      by_cases fits : blanks stream + 2 ≤ 16
      case pos =>
        have bound := occurrence_end_le first
        change blanks stream + 2 ≤ _ at bound
        have there := @le_arrived (blanks stream + 2) writes (by omega)
        have seen : occurrence crlf (stream.take 16) = some (blanks stream) :=
          occurrence_take_eq_some_iff.mpr ⟨first, by omega, fits⟩
        rw [arrives seen, and_iff_right fits]
        by_cases other : END <:+: stream.take (min 16 (arrived (blanks stream + 2) writes))
        case pos =>
          cases later : occurrence END (stream.take (min 16 (arrived (blanks stream + 2) writes))) with
          | none => exact absurd other ((occurrence_none_iff (by decide)).mp later)
          | some pos =>
            rw [firstListed_end later]
            exact iff_of_false (fun same => by cases same) (not_not.mpr other)
        case neg =>
          have complete : occurrence crlf (stream.take (min 16 (arrived (blanks stream + 2) writes))) =
              some (blanks stream) :=
            occurrence_take_eq_some_iff.mpr ⟨first, by omega, by change blanks stream + 2 ≤ _; omega⟩
          rw [firstListed_crlf other complete]
          exact iff_of_true rfl other
      case neg =>
        rw [none.mpr (occurrence_late first fits)]
        exact iff_of_false (fun same => by cases same) fun both => fits both.1
    case neg =>
      rw [if_neg continues, if_neg continues, Option.map_eq_none_iff, none]

theorem end_boundary_iff_end :
    ((outcome (fun size => .replicate size 0) [ascii " -", [45, 13], [10, 88]]).verdict = .finished ∨
        (outcome (fun size => .replicate size 0) [ascii " -", [45, 13], [10, 88]]).verdict = .failed) ∧
      (answer (fun size => .replicate size 0) [ascii " -", [45, 13], [10, 88]] = expected (ascii " --\r\nX") ↔
        Spared [ascii " -", [45, 13], [10, 88]]) :=
  end_boundary_iff (fun size => .replicate size 0) (by decide)

/-- Garbage is passed over, and an end that arrives behind a CR LF is taken instead of it. -/
theorem end_boundary_passes :
    answer (fun size => .replicate size 0) [ascii "garbage\r\n"] = some (.statContinue, 9) ∧
      expected (ascii "garbage\r\n") = none ∧
      answer (fun size => .replicate size 0) [ascii "\r\nabc--\r\n"] = some (.statEnd, 9) ∧
      expected (ascii "\r\nabc--\r\n") = some (.statContinue, 2) := by
  decide +kernel

end Mantids.MIME.EndPBoundary
