import Mantids.Memory.SubParserCalls

/-! A run of writes reads what the stream says on its own exactly when each of its calls
is orderly, so that two splits of a stream agree. -/

set_option autoImplicit false

namespace Mantids.Memory.Streams

/-- Sub parsers that only use the modes that wait for whole elements. -/
structure Protocol.Buffering {σ : Type} (protocol : Protocol σ) : Prop where
  parse : ∀ user settings presented, settings.parseMode.Buffers →
    (protocol.parse user settings presented).2.1.parseMode.Buffers
  changeToNextParser : ∀ user settings user', protocol.changeToNextParser user = some (some settings, user') →
    settings.parseMode.Buffers

section
variable {σ : Type} (protocol : Protocol σ)

/-! ## One call of `parseData` -/

section
variable {p p' : SubParser} {user : σ} {buf : Bytes} {taken : Nat} (turns : Nat)

theorem parseData_more
    (result : writeIntoParser protocol.parse user (protocol.fresh user) p buf = ⟨some taken, .getMoreData, p', user, []⟩) :
    protocol.parseData (turns + 1) ⟨some p, user⟩ buf =
      if taken ≠ buf.length then
        (protocol.parseData turns ⟨some p', user⟩ (buf.drop taken)).after (p, buf) [] taken
      else ⟨.open, ⟨some p', user⟩, taken, [], [(p, buf)]⟩ := by
  simp only [Protocol.parseData, result, Protocol.turn, true_and]

theorem parseData_refused
    (result : writeIntoParser protocol.parse user (protocol.fresh user) p buf = ⟨none, .getMoreData, p', user, []⟩) :
    protocol.parseData (turns + 1) ⟨some p, user⟩ buf = ⟨.failed, ⟨some p', user⟩, 0, [], [(p, buf)]⟩ := by
  simp only [Protocol.parseData, result]

theorem parseData_delivered {presented : Presented} {verdict : Verdict} {parser : Parser σ}
    (result : writeIntoParser protocol.parse user (protocol.fresh user) p buf =
      delivered protocol.parse user p.settings presented taken)
    (read : protocol.read user p.settings presented = (verdict, parser)) :
    protocol.parseData (turns + 1) ⟨some p, user⟩ buf =
      if verdict = .open ∧ taken ≠ buf.length then
        (protocol.parseData turns parser (buf.drop taken)).after (p, buf) [presented] taken
      else ⟨verdict, parser, taken, [presented], [(p, buf)]⟩ := by
  unfold Protocol.read at read
  simp only [Protocol.parseData, result, delivered, read]

end

theorem followed_after (left : Parsed σ) (call : SubParser × Bytes) (presented : List Presented) (taken : Nat)
    (later : Parser σ → Outcome σ) :
    (left.after call presented taken).followed later = (left.followed later).after presented taken := by
  unfold Parsed.followed
  split
  · rw [if_pos (by assumption), Outcome.after_after]
    rfl
  · rw [if_neg (by assumption)]
    rfl

/-- What is to come amounts to `outcome` for the stream, read after the bytes that wait. -/
def Reads (p : SubParser) (user : σ) (stream : Bytes) (outcome : Outcome σ) : Prop :=
  Parses protocol user p.settings (p.pending ++ stream) (outcome.after [] p.pending.length)

section
variable {protocol} {p p' : SubParser} {user user' : σ} {buf stream : Bytes} {taken : Nat} {outcome : Outcome σ}

theorem reads_new (settings : Settings) :
    Reads protocol (.new settings) user stream outcome ↔ Parses protocol user settings stream outcome := by
  have same : outcome.after [] 0 = outcome := by
    rw [Outcome.after_nil, Nat.zero_add]
  show Parses protocol user settings ([] ++ stream) (outcome.after [] 0) ↔ _
  rw [same, List.nil_append]

theorem reads_more (settings : p'.settings = p.settings) (bound : taken ≤ buf.length)
    (pending : p'.pending = p.pending ++ buf.take taken) :
    Reads protocol p user (buf ++ stream) (outcome.after [] taken) ↔
      Reads protocol p' user (buf.drop taken ++ stream) outcome := by
  have bytes : p.pending ++ (buf ++ stream) = p.pending ++ buf.take taken ++ (buf.drop taken ++ stream) := by
    rw [List.append_assoc, ← List.append_assoc (buf.take taken), List.take_append_drop]
  have count : (p.pending ++ buf.take taken).length = p.pending.length + taken := by
    rw [List.length_append, List.length_take, Nat.min_eq_left bound]
  unfold Reads
  rw [settings, pending, bytes, Outcome.after_after, count, List.append_nil]

theorem reads_element {element : Element} {settings' : Settings}
    (complete : p.settings.firstElement (p.pending ++ buf) = some element)
    (count : p.pending.length + taken = element.length)
    (goes : protocol.read user p.settings element.presented = (.open, ⟨some (.new settings'), user'⟩)) :
    Reads protocol p user (buf ++ stream) (outcome.after [element.presented] taken) ↔
      Reads protocol (.new settings') user' (buf.drop taken ++ stream) outcome := by
  have first := Settings.firstElement_append complete stream
  have bound := (Settings.firstElement_length_le complete).1
  rw [List.append_assoc] at first
  have rest : (p.pending ++ (buf ++ stream)).drop element.length = buf.drop taken ++ stream := by
    rw [List.length_append] at bound
    have inside : taken ≤ buf.length := by omega
    rw [← count, ← List.drop_drop, List.drop_left' rfl, List.drop_append_of_le_length inside]
  unfold Reads
  rw [Outcome.after_after, List.nil_append, count, parses_next_iff first goes, rest]
  exact (reads_new ..).symm

theorem reads_last {element : Element} {verdict : Verdict} {parser : Parser σ}
    (complete : p.settings.firstElement (p.pending ++ buf) = some element)
    (count : p.pending.length + taken = element.length)
    (stops : protocol.read user p.settings element.presented = (verdict, parser)) (ended : verdict ≠ .open) :
    Reads protocol p user (buf ++ stream) ⟨[element.presented], taken, verdict, parser.user⟩ := by
  have first := Settings.firstElement_append complete stream
  rw [List.append_assoc] at first
  unfold Reads
  rw [parses_last_iff first stops ended, Outcome.after_nil, count]

theorem reads_full (incomplete : p.settings.firstElement (p.pending ++ buf) = none)
    (full : p.pending.length = p.unparsedBuffer.limits.maxSize) (filled : buf ≠ []) :
    Reads protocol p user (buf ++ stream) ⟨[], 0, .failed, user⟩ := by
  have target : (p.settings.parseDataTargetSize : Nat) = p.unparsedBuffer.limits.maxSize := rfl
  have more := List.length_pos_of_ne_nil filled
  have never := Settings.firstElement_of_long incomplete (by rw [List.length_append]; omega) stream
  rw [List.append_assoc] at never
  unfold Reads
  rw [parses_tooLong_iff never, Outcome.after_nil, Nat.add_zero, full, target]
  rw [List.length_append, List.length_append]
  omega

/-- A stream that goes on never fails before its target size without an element. -/
theorem not_reads_crowded (below : p.pending.length < p.unparsedBuffer.limits.maxSize) :
    ¬Reads protocol p user stream ⟨[], 0, .failed, user'⟩ := by
  have target : (p.settings.parseDataTargetSize : Nat) = p.unparsedBuffer.limits.maxSize := rfl
  unfold Reads
  rw [Outcome.after_nil, Nat.add_zero]
  generalize whole : (⟨[], p.pending.length, .failed, user'⟩ : Outcome σ) = outcome
  intro parses
  cases parses with
  | waiting _ _ => simp at whole
  | tooLong _ _ =>
    simp only [Outcome.mk.injEq] at whole
    omega
  | last _ _ _ => simp at whole
  | next _ _ _ => simp [Outcome.after] at whole

theorem not_reads_misordered {element : Element} {presented : Presented} {later : List Presented}
    (complete : p.settings.firstElement (p.pending ++ buf) = some element) (other : presented ≠ element.presented)
    (first : outcome.presented = presented :: later) : ¬Reads protocol p user (buf ++ stream) outcome := by
  intro reads
  have whole := Settings.firstElement_append complete stream
  rw [List.append_assoc] at whole
  obtain ⟨rest, same⟩ := presented_of_parses whole reads
  rw [Outcome.after, first, List.nil_append] at same
  exact other (List.cons.inj same).1

theorem waiting_of_read (buffering : protocol.Buffering) {settings : Settings} (buffers : settings.parseMode.Buffers)
    {presented : Presented} {parser : Parser σ} (goes : protocol.read user settings presented = (.open, parser)) :
    ∃ settings' user', parser = ⟨some (.new settings'), user'⟩ ∧ Waiting (.new settings') := by
  obtain ⟨settings', current, origin⟩ := turn_open goes
  refine ⟨settings', parser.user, ?_, waiting_new ?_⟩
  · rw [← current]
  · rcases origin with rfl | changed
    · exact buffering.parse user settings presented buffers
    · exact buffering.changeToNextParser _ _ _ changed

end

/-! ## Runs -/

theorem followed_of_not_open {parsed : Parsed σ} (ended : parsed.verdict ≠ .open) (later : Parser σ → Outcome σ) :
    parsed.followed later = ⟨parsed.presented, parsed.consumed, parsed.verdict, parsed.parser.user⟩ :=
  if_neg ended

theorem presented_followed (parsed : Parsed σ) (later : Parser σ → Outcome σ) :
    ∃ rest, (parsed.followed later).presented = parsed.presented ++ rest := by
  unfold Parsed.followed
  split
  · exact ⟨_, rfl⟩
  · exact ⟨[], (List.append_nil _).symm⟩

theorem followed_open (parser : Parser σ) (consumed : Nat) (presented : List Presented)
    (calls : List (SubParser × Bytes)) (later : Parser σ → Outcome σ) :
    Parsed.followed ⟨.open, parser, consumed, presented, calls⟩ later = (later parser).after presented consumed := rfl

section
variable {protocol} (buffering : protocol.Buffering) (stream : Bytes) (later : Parser σ → Outcome σ)
  (fair : Parser σ → Prop)
  (laterReads : ∀ p user, Waiting p → (later ⟨some p, user⟩).verdict ≠ .expired →
    (Reads protocol p user stream (later ⟨some p, user⟩) ↔ fair ⟨some p, user⟩))
include buffering laterReads

theorem parseData_reads_iff (turns : Nat) {p : SubParser} (waiting : Waiting p) (user : σ) {buf : Bytes}
    (filled : buf ≠ [])
    (inTime : ((protocol.parseData turns ⟨some p, user⟩ buf).followed later).verdict ≠ .expired) :
    Reads protocol p user (buf ++ stream) ((protocol.parseData turns ⟨some p, user⟩ buf).followed later) ↔
      (∀ call ∈ (protocol.parseData turns ⟨some p, user⟩ buf).calls, Orderly call.1 call.2) ∧
        ((protocol.parseData turns ⟨some p, user⟩ buf).verdict = .open →
          fair (protocol.parseData turns ⟨some p, user⟩ buf).parser) := by
  induction turns generalizing p user buf with
  | zero => exact absurd rfl inTime
  | succ turns ih =>
    by_cases orderly : Orderly p buf
    · have call := write_call protocol.parse user waiting filled (protocol.fresh user) orderly
      generalize result : writeIntoParser protocol.parse user (protocol.fresh user) p buf = written at call
      cases call with
      | @element element taken complete count =>
        have bound := (Settings.firstElement_length_le complete).1
        rw [List.length_append] at bound
        cases read : protocol.read user p.settings element.presented with
        | mk verdict parser =>
          rw [parseData_delivered protocol turns result read] at inTime ⊢
          by_cases goes : verdict = .open
          · subst goes
            obtain ⟨settings', user', rfl, waiting'⟩ := waiting_of_read buffering waiting.buffers read
            by_cases last : taken = buf.length
            · rw [if_neg (by simp [last])] at inTime ⊢
              rw [followed_open] at inTime ⊢
              rw [reads_element complete count read, last, List.drop_length, List.nil_append,
                laterReads _ user' waiting' inTime]
              simp [orderly]
            · have rest : buf.drop taken ≠ [] := by
                rw [ne_eq, List.drop_eq_nil_iff]
                omega
              rw [if_pos ⟨rfl, last⟩] at inTime ⊢
              rw [followed_after] at inTime ⊢
              rw [reads_element complete count read, ih waiting' user' rest inTime]
              simp [Parsed.after, orderly]
          · rw [if_neg (fun both => goes both.1), followed_of_not_open goes]
            exact iff_of_true (reads_last complete count read goes) (by simp [orderly, goes])
      | @more p' taken waiting' settings bound pending =>
        rw [parseData_more protocol turns result] at inTime ⊢
        by_cases last : taken = buf.length
        · rw [if_neg (by simp [last])] at inTime ⊢
          rw [followed_open] at inTime ⊢
          rw [reads_more settings bound pending, last, List.drop_length, List.nil_append,
            laterReads _ user waiting' inTime]
          simp [orderly]
        · have rest : buf.drop taken ≠ [] := by
            rw [ne_eq, List.drop_eq_nil_iff]
            omega
          rw [if_pos last] at inTime ⊢
          rw [followed_after] at inTime ⊢
          rw [reads_more settings bound pending, ih waiting' user rest inTime]
          simp [Parsed.after, orderly]
      | full incomplete full =>
        rw [parseData_refused protocol turns result, followed_of_not_open (by simp)]
        exact iff_of_true (reads_full incomplete full filled) (by simp [orderly])
    · have disorderly : ¬Orderly p buf := orderly
      have mishap := write_mishap protocol.parse user waiting filled (protocol.fresh user) disorderly
      generalize result : writeIntoParser protocol.parse user (protocol.fresh user) p buf = written at mishap
      cases mishap with
      | crowded below =>
        rw [parseData_refused protocol turns result, followed_of_not_open (by simp)]
        exact iff_of_false (not_reads_crowded below) (by simp [disorderly])
      | @misordered element presented taken complete other =>
        cases read : protocol.read user p.settings presented with
        | mk verdict parser =>
          have parsed := parseData_delivered protocol turns result read
          have called : (p, buf) ∈ (protocol.parseData (turns + 1) ⟨some p, user⟩ buf).calls := by
            rw [parsed]
            split <;> exact .head _
          have delivers : ∃ rest, (protocol.parseData (turns + 1) ⟨some p, user⟩ buf).presented = presented :: rest := by
            rw [parsed]
            split <;> exact ⟨_, rfl⟩
          obtain ⟨rest, delivers⟩ := delivers
          obtain ⟨tail, first⟩ := presented_followed (protocol.parseData (turns + 1) ⟨some p, user⟩ buf) later
          rw [delivers, List.cons_append] at first
          exact iff_of_false (not_reads_misordered complete other first) fun both => disorderly (both.1 _ called)

end

theorem run_reads_iff {protocol : Protocol σ} (buffering : protocol.Buffering) {p : SubParser} (waiting : Waiting p)
    (user : σ) {writes : List Bytes} (filled : ∀ buf ∈ writes, buf ≠ [])
    (inTime : (protocol.run ⟨some p, user⟩ writes).verdict ≠ .expired) :
    Reads protocol p user writes.flatten (protocol.run ⟨some p, user⟩ writes) ↔
      ∀ call ∈ protocol.calls ⟨some p, user⟩ writes, Orderly call.1 call.2 := by
  induction writes generalizing p user with
  | nil =>
    have fits := waiting.fits
    rw [← waiting.length_pending] at fits
    have target : (p.settings.parseDataTargetSize : Nat) = p.unparsedBuffer.limits.maxSize := rfl
    refine iff_of_true ?_ (by simp [Protocol.calls])
    unfold Reads
    rw [List.flatten_nil, List.append_nil, parses_waiting_iff waiting.incomplete (by omega)]
    rfl
  | cons buf writes ih =>
    rw [List.flatten_cons, Protocol.run, Protocol.write,
      parseData_reads_iff buffering writes.flatten _
        (fun parser => ∀ call ∈ protocol.calls parser writes, Orderly call.1 call.2)
        (fun p user waiting inTime => ih waiting user (fun buf later => filled buf (.tail _ later)) inTime)
        _ waiting user (filled buf (.head _)) inTime]
    rw [Protocol.calls, List.forall_mem_append, Protocol.write]
    apply and_congr_right
    intro _
    split
    · simp [*]
    · simp [*]

/-- Both splits read what their stream says on its own: the same elements, each ended by
the delimiter that is complete first, the same verdict and as many bytes. -/
def FragmentationIndependent (protocol : Protocol σ) (settings : Settings) (user : σ) (writes writes' : List Bytes) :
    Prop :=
  ∃ outcome, Parses protocol user settings writes.flatten outcome ∧
    protocol.run ⟨some (.new settings), user⟩ writes = outcome ∧
    protocol.run ⟨some (.new settings), user⟩ writes' = outcome

/-- Two splits of a stream are read alike, and as the stream says, exactly when every call
of both is orderly. -/
theorem fragmentationIndependent_iff {protocol : Protocol σ} (buffering : protocol.Buffering) {settings : Settings}
    (buffers : settings.parseMode.Buffers) (user : σ) {writes writes' : List Bytes}
    (same : writes.flatten = writes'.flatten) (filled : ∀ buf ∈ writes, buf ≠ []) (filled' : ∀ buf ∈ writes', buf ≠ [])
    (inTime : (protocol.run ⟨some (.new settings), user⟩ writes).verdict ≠ .expired)
    (inTime' : (protocol.run ⟨some (.new settings), user⟩ writes').verdict ≠ .expired) :
    FragmentationIndependent protocol settings user writes writes' ↔
      (∀ call ∈ protocol.calls ⟨some (.new settings), user⟩ writes, Orderly call.1 call.2) ∧
        ∀ call ∈ protocol.calls ⟨some (.new settings), user⟩ writes', Orderly call.1 call.2 := by
  have first := run_reads_iff buffering (waiting_new buffers) user filled inTime
  have second := run_reads_iff buffering (waiting_new buffers) user filled' inTime'
  rw [reads_new] at first second
  rw [← first, ← second, ← same]
  constructor
  · rintro ⟨outcome, parses, rfl, other⟩
    exact ⟨parses, other ▸ parses⟩
  · rintro ⟨parses, parses'⟩
    exact ⟨_, parses, rfl, parses_unique parses' parses⟩

/-! ## A protocol of lines -/

/-- Lines that end in a newline or a semicolon, in this order. -/
def lines : Settings := { Settings.new with parseMode := .multiDelimiter, parseMultiDelimiter := [[10], [59]] }

/-- Every line is taken and the next one waited for. -/
def lineProtocol : Protocol Unit where
  parse := fun user settings _ => (.getMoreData, settings, user)
  changeToNextParser := fun _ => none
  fresh := fun _ size => Vector.replicate size 0
  maxTTL := 4096

theorem lineProtocol_buffering : lineProtocol.Buffering where
  parse := fun _ _ _ buffers => buffers
  changeToNextParser := fun _ _ _ changed => by cases changed

theorem fragmentationIndependent_lines :
    FragmentationIndependent lineProtocol lines () [[120, 10], [121, 59]] [[120], [10, 121], [59]] := by
  have buffers : lines.parseMode.Buffers := trivial
  apply (fragmentationIndependent_iff lineProtocol_buffering buffers () (by decide) (by decide) (by decide)
    (by decide +kernel) (by decide +kernel)).mpr
  decide +kernel

/-- `"x;y\n"` at once is one line `"x;y"`, in two writes it is `"x"` and `"y"`. -/
theorem fragmentationIndependent_fails : ¬∀ writes writes' : List Bytes, (∀ buf ∈ writes, buf ≠ []) →
    (∀ buf ∈ writes', buf ≠ []) → writes.flatten = writes'.flatten →
    (lineProtocol.run ⟨some (.new lines), ()⟩ writes).verdict ≠ .expired →
    (lineProtocol.run ⟨some (.new lines), ()⟩ writes').verdict ≠ .expired →
    (lineProtocol.run ⟨some (.new lines), ()⟩ writes).presented =
      (lineProtocol.run ⟨some (.new lines), ()⟩ writes').presented := by
  intro all
  have same := all [[120, 59, 121, 10]] [[120, 59], [121, 10]] (by decide) (by decide) (by decide)
    (by decide +kernel) (by decide +kernel)
  revert same
  decide +kernel

end

end Mantids.Memory.Streams
