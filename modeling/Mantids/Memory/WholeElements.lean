import Mantids.Memory.Reader

/-! Elements that the chunks of a container suffice for. However a stream of them is cut, it
is read to its end, one turn for each element. -/

set_option autoImplicit false

namespace Mantids.Memory.Streams

/-- Elements up to a delimiter or of a size, within the chunks of a container. -/
structure Settings.Small (settings : Settings) : Prop where
  mode : settings.parseMode = .delimiter ∨ settings.parseMode = .size
  some : 0 < (settings.parseDataTargetSize : Nat)
  target : settings.parseDataTargetSize ≤ Limits.default.maxChunks

theorem Settings.Small.buffers {settings : Settings} (small : settings.Small) : settings.parseMode.Buffers := by
  rcases small.mode with mode | mode <;> rw [mode] <;> trivial

/-- So many small elements bring the parser to its end. -/
inductive Completes {σ : Type} (protocol : Protocol σ) : Nat → σ → Settings → Bytes → Verdict × σ → Prop where
  | last {user : σ} {settings : Settings} {stream : Bytes} {element : Element} {verdict : Verdict} {parser : Parser σ}
      (small : settings.Small) (complete : settings.firstElement stream = some element)
      (stops : protocol.read user settings element.presented = (verdict, parser)) (ended : verdict ≠ .open) :
      Completes protocol 1 user settings stream (verdict, parser.user)
  | next {n : Nat} {user user' : σ} {settings settings' : Settings} {stream : Bytes} {element : Element}
      {final : Verdict × σ} (small : settings.Small) (complete : settings.firstElement stream = some element)
      (goes : protocol.read user settings element.presented = (.open, ⟨some (.new settings'), user'⟩))
      (rest : Completes protocol n user' settings' (stream.drop element.length) final) :
      Completes protocol (n + 1) user settings stream final

section
variable {σ : Type} (parse : Parse σ) (user : σ) {p : SubParser} {settings : Settings} {pending buf later : Bytes}
  (holds : Holds p settings pending) (small : settings.Small) (filled : buf ≠ [])
  {element : Element} (complete : settings.firstElement (pending ++ buf ++ later) = some element)
include holds small filled complete

/-- A write to a stream with a small element either has its end or is taken as it is. -/
theorem write_small (fresh : Fresh) :
    (∃ taken, pending.length + taken = element.length ∧ taken ≤ buf.length ∧
      writeIntoParser parse user fresh p buf = delivered parse user settings element.presented taken) ∨
    ∃ p', Holds p' settings (pending ++ buf) ∧
      writeIntoParser parse user fresh p buf = ⟨some buf.length, .getMoreData, p', user, []⟩ := by
  have more := List.length_pos_of_ne_nil filled
  have same : ∀ {other : Element}, settings.firstElement (pending ++ buf) = some other → other = element := by
    intro other first
    have whole := Settings.firstElement_append first later
    rw [complete] at whole
    exact (Option.some.inj whole).symm
  have fits : settings.firstElement (pending ++ buf) = none →
      (pending ++ buf).length ≤ settings.parseDataTargetSize := by
    intro incomplete
    by_contra long
    rw [Settings.firstElement_of_long incomplete (Nat.not_le.mp long)] at complete
    contradiction
  have configured : settings.parseMode = p.parseMode := by
    rw [← holds.configured]
    rfl
  rcases small.mode with mode | mode
  · -- up to a delimiter, the reader's turn
    have turn := write_turn parse user holds ⟨.inl mode, small.target⟩ filled fresh
    have listed := @listedElement_eq _ ⟨settings, pending, user⟩ mode (pending ++ buf)
    generalize writeIntoParser parse user fresh p buf = written at turn
    cases turn with
    | @element other taken here count =>
      have bound := (Settings.listedElement_length_le here).1
      rw [listed] at here
      obtain rfl := same here
      rw [List.length_append] at bound
      exact .inl ⟨taken, count, by omega, rfl⟩
    | @more p' missing below holds' =>
      rw [listed] at missing
      have short := fits missing
      rw [List.take_of_length_le short] at holds'
      rw [List.length_append] at short
      rw [List.take_of_length_le (by omega : buf.length ≤ settings.parseDataTargetSize - pending.length)]
      exact .inr ⟨p', holds', rfl⟩
    | full missing full _ =>
      rw [listed] at missing
      have short := fits missing
      rw [List.length_append] at short
      omega
  · have dispatched : writeIntoParser parse user fresh p buf = parseBySize parse user p buf := by
      simp only [writeIntoParser, filled, if_false, ← configured, mode]
    have some := small.some
    have target := holds.target
    have incomplete := holds.waiting.incomplete
    rw [holds.configured, holds.held, Settings.firstElement_size mode] at incomplete
    have below : pending.length < settings.parseDataTargetSize := by
      by_contra full
      have nonempty : pending ≠ [] := List.ne_nil_of_length_pos (by omega)
      rw [if_pos ⟨nonempty, by omega⟩] at incomplete
      contradiction
    have left : p.unparsedBuffer.getSizeLeft ≠ 0 := by
      rw [holds.sizeLeft]
      omega
    obtain ⟨c, appended, result⟩ := parseBySize_room parse user holds.waiting filled left (holds.room small.target buf)
    rw [dispatched, result, target, holds.held, holds.configured]
    have first : settings.firstElement (pending ++ buf) = _ := Settings.firstElement_size mode
    by_cases long : settings.parseDataTargetSize ≤ (pending ++ buf).length
    · rw [if_pos ⟨by simp [filled], long⟩] at first
      obtain rfl := same first
      rw [if_pos long]
      rw [List.length_append] at long
      refine .inl ⟨_, ?_, List.length_take_le' .., rfl⟩
      rw [List.length_take, holds.sizeLeft]
      dsimp only
      omega
    · rw [if_neg (fun both => long both.2)] at first
      have whole := fits first
      have holds' := holds.appended appended (holds.room small.target buf) first
      rw [List.take_of_length_le whole] at holds'
      rw [if_neg long]
      rw [List.length_append] at whole
      refine .inr ⟨_, holds', ?_⟩
      rw [List.take_of_length_le (by rw [holds.sizeLeft]; omega)]

end

section
variable {σ : Type} {protocol : Protocol σ}

theorem Completes.small {n : Nat} {user : σ} {settings : Settings} {stream : Bytes} {final : Verdict × σ}
    (completes : Completes protocol n user settings stream final) :
    settings.Small ∧ ∃ element, settings.firstElement stream = some element := by
  cases completes with
  | last small complete _ _ => exact ⟨small, _, complete⟩
  | next small complete _ _ => exact ⟨small, _, complete⟩

/-- So many small elements, of so many bytes in all, bring the parser to its end. -/
inductive Spans (protocol : Protocol σ) : (n length : Nat) → σ → Settings → Bytes → Verdict × σ → Prop where
  | last {user : σ} {settings : Settings} {stream : Bytes} {element : Element} {verdict : Verdict} {parser : Parser σ}
      (small : settings.Small) (complete : settings.firstElement stream = some element)
      (stops : protocol.read user settings element.presented = (verdict, parser)) (ended : verdict ≠ .open) :
      Spans protocol 1 element.length user settings stream (verdict, parser.user)
  | next {n length : Nat} {user user' : σ} {settings settings' : Settings} {stream : Bytes} {element : Element}
      {final : Verdict × σ} (small : settings.Small) (complete : settings.firstElement stream = some element)
      (goes : protocol.read user settings element.presented = (.open, ⟨some (.new settings'), user'⟩))
      (rest : Spans protocol n length user' settings' (stream.drop element.length) final) :
      Spans protocol (n + 1) (element.length + length) user settings stream final

theorem completes_iff_spans {n : Nat} {user : σ} {settings : Settings} {stream : Bytes} {final : Verdict × σ} :
    Completes protocol n user settings stream final ↔ ∃ length, Spans protocol n length user settings stream final := by
  constructor
  · intro completes
    induction completes with
    | last small complete stops ended => exact ⟨_, .last small complete stops ended⟩
    | next small complete goes _ ih =>
      obtain ⟨length, rest⟩ := ih
      exact ⟨_, .next small complete goes rest⟩
  · rintro ⟨length, spans⟩
    induction spans with
    | last small complete stops ended => exact .last small complete stops ended
    | next small complete goes _ ih => exact .next small complete goes ih

theorem Spans.small {n length : Nat} {user : σ} {settings : Settings} {stream : Bytes} {final : Verdict × σ}
    (spans : Spans protocol n length user settings stream final) :
    settings.Small ∧ ∃ element, settings.firstElement stream = some element :=
  (completes_iff_spans.mpr ⟨length, spans⟩).small

/-- A write either has the end of the elements in it or is consumed whole. -/
theorem parseData_spans (turns : Nat) {n length : Nat} (enough : n ≤ turns) {p : SubParser} {settings : Settings}
    {pending buf later : Bytes} (holds : Holds p settings pending) (filled : buf ≠ []) {user : σ} {final : Verdict × σ}
    (spans : Spans protocol n length user settings (pending ++ buf ++ later) final) :
    let parsed := protocol.parseData turns ⟨some p, user⟩ buf
    (parsed.verdict ≠ .open ∧ (parsed.verdict, parsed.parser.user) = final ∧ pending.length + parsed.consumed = length) ∨
      parsed.verdict = .open ∧ parsed.consumed = buf.length ∧ ∃ p' settings' pending' user' m length',
        parsed.parser = ⟨some p', user'⟩ ∧ Holds p' settings' pending' ∧ m ≤ n ∧
          Spans protocol m length' user' settings' (pending' ++ later) final ∧
          pending.length + buf.length + length' = length + pending'.length := by
  induction turns generalizing n length p settings pending buf user with
  | zero =>
    cases spans <;> omega
  | succ turns ih =>
    obtain ⟨small, element, complete⟩ := spans.small
    rcases write_small protocol.parse user holds small filled complete (protocol.fresh user) with
      ⟨taken, count, inside, result⟩ | ⟨p', holds', result⟩
    · rw [← holds.configured] at result
      have rest : (pending ++ buf ++ later).drop element.length = buf.drop taken ++ later := by
        rw [← count, List.append_assoc, ← List.drop_drop, List.drop_left' rfl, List.drop_append_of_le_length inside]
      cases spans with
      | @last _ _ _ other verdict parser _ first stops ended =>
        rw [complete] at first
        cases first
        rw [← holds.configured] at stops
        left
        rw [parseData_delivered protocol turns result stops, if_neg (fun both => ended both.1)]
        exact ⟨ended, rfl, count⟩
      | @next n length _ user' _ settings' _ other _ _ first goes rest' =>
        rw [complete] at first
        cases first
        rw [← holds.configured] at goes
        rw [rest] at rest'
        rw [parseData_delivered protocol turns result goes]
        have fresh : Holds (.new settings') settings' [] := by
          apply holds_new
          exact rest'.small.1.buffers
        by_cases all : taken = buf.length
        · rw [if_neg (by simp [all])]
          rw [all, List.drop_length] at rest'
          refine .inr ⟨rfl, all, _, settings', [], user', n, length, rfl, fresh, Nat.le_succ n, rest', ?_⟩
          rw [List.length_nil]
          omega
        · have left : buf.drop taken ≠ [] := by
            rw [ne_eq, List.drop_eq_nil_iff]
            omega
          rw [if_pos ⟨rfl, all⟩]
          rcases ih (Nat.le_of_succ_le_succ enough) fresh left rest' with ⟨ended, same, consumed⟩ |
            ⟨opened, consumed, p', settings'', pending', user'', m, length', same, holds', fewer, spans', balance⟩
          · refine .inl ⟨ended, same, ?_⟩
            rw [List.length_nil] at consumed
            dsimp only [Parsed.after]
            omega
          · rw [List.length_nil, List.length_drop] at balance
            rw [List.length_drop] at consumed
            refine .inr ⟨opened, ?_, p', settings'', pending', user'', m, length', same, holds', Nat.le_succ_of_le fewer,
              spans', by omega⟩
            dsimp only [Parsed.after]
            omega
    · have parsed := parseData_more protocol turns result
      rw [if_neg (by simp)] at parsed
      rw [parsed]
      refine .inr ⟨rfl, rfl, p', settings, pending ++ buf, user, n, length, rfl, holds', Nat.le_refl n, spans, ?_⟩
      rw [List.length_append]
      omega

theorem parseData_completes (turns : Nat) {n : Nat} (enough : n ≤ turns) {p : SubParser} {settings : Settings}
    {pending buf later : Bytes} (holds : Holds p settings pending) (filled : buf ≠ []) {user : σ} {final : Verdict × σ}
    (completes : Completes protocol n user settings (pending ++ buf ++ later) final) :
    let parsed := protocol.parseData turns ⟨some p, user⟩ buf
    (parsed.verdict ≠ .open ∧ (parsed.verdict, parsed.parser.user) = final) ∨
      parsed.verdict = .open ∧ ∃ p' settings' pending' user' m, parsed.parser = ⟨some p', user'⟩ ∧
        Holds p' settings' pending' ∧ m ≤ n ∧ Completes protocol m user' settings' (pending' ++ later) final := by
  obtain ⟨length, spans⟩ := completes_iff_spans.mp completes
  rcases parseData_spans turns enough holds filled spans with ⟨ended, same, -⟩ |
    ⟨opened, -, p', settings', pending', user', m, length', same, holds', fewer, spans', -⟩
  · exact .inl ⟨ended, same⟩
  · exact .inr ⟨opened, p', settings', pending', user', m, same, holds', fewer, completes_iff_spans.mpr ⟨length', spans'⟩⟩

/-- However it is cut, the stream is read to its end. -/
theorem writeAll_completes {n : Nat} (enough : n ≤ protocol.maxTTL + 1) {p : SubParser} {settings : Settings}
    {pending : Bytes} (holds : Holds p settings pending) {writes : List Bytes} (filled : ∀ buf ∈ writes, buf ≠ [])
    {user : σ} {final : Verdict × σ}
    (completes : Completes protocol n user settings (pending ++ writes.flatten) final) :
    ((protocol.writeAll ⟨some p, user⟩ writes).1, (protocol.writeAll ⟨some p, user⟩ writes).2.user) = final := by
  induction writes generalizing n p settings pending user with
  | nil =>
    obtain ⟨-, element, complete⟩ := completes.small
    have incomplete := holds.waiting.incomplete
    rw [holds.configured, holds.held] at incomplete
    rw [List.flatten_nil, List.append_nil, incomplete] at complete
    contradiction
  | cons buf writes ih =>
    rw [List.flatten_cons, ← List.append_assoc] at completes
    have step := parseData_completes (protocol.maxTTL + 1) enough holds (filled buf (.head _)) completes
    rw [Protocol.writeAll, Protocol.write]
    generalize protocol.parseData (protocol.maxTTL + 1) ⟨some p, user⟩ buf = parsed at step
    rcases step with ⟨ended, final⟩ | ⟨opened, p', settings', pending', user', m, same, holds', fewer, completes'⟩
    · simp only [ended, if_false]
      exact final
    · simp only [opened, if_true, same]
      exact ih (Nat.le_trans fewer enough) holds' (fun other member => filled other (.tail _ member)) completes'

/-- And nothing behind its end is consumed. -/
theorem run_spans {n length : Nat} (enough : n ≤ protocol.maxTTL + 1) {p : SubParser} {settings : Settings}
    {pending : Bytes} (holds : Holds p settings pending) {writes : List Bytes} (filled : ∀ buf ∈ writes, buf ≠ [])
    {user : σ} {final : Verdict × σ}
    (spans : Spans protocol n length user settings (pending ++ writes.flatten) final) :
    (protocol.run ⟨some p, user⟩ writes).verdict = final.1 ∧ (protocol.run ⟨some p, user⟩ writes).user = final.2 ∧
      pending.length + (protocol.run ⟨some p, user⟩ writes).consumed = length := by
  induction writes generalizing n length p settings pending user with
  | nil =>
    obtain ⟨-, element, complete⟩ := spans.small
    have incomplete := holds.waiting.incomplete
    rw [holds.configured, holds.held] at incomplete
    rw [List.flatten_nil, List.append_nil, incomplete] at complete
    contradiction
  | cons buf writes ih =>
    rw [List.flatten_cons, ← List.append_assoc] at spans
    have step := parseData_spans (protocol.maxTTL + 1) enough holds (filled buf (.head _)) spans
    rw [Protocol.run, Protocol.write, Parsed.followed]
    generalize protocol.parseData (protocol.maxTTL + 1) ⟨some p, user⟩ buf = parsed at step
    rcases step with ⟨ended, same, consumed⟩ |
      ⟨opened, consumed, p', settings', pending', user', m, length', same, holds', fewer, spans', balance⟩
    · rw [if_neg ended]
      exact ⟨congrArg Prod.fst same, congrArg Prod.snd same, consumed⟩
    · rw [if_pos opened, same]
      obtain ⟨verdict, last, count⟩ := ih (Nat.le_trans fewer enough) holds'
        (fun other member => filled other (.tail _ member)) spans'
      refine ⟨verdict, last, ?_⟩
      dsimp only [Outcome.after]
      omega

/-- In one write there may be more elements than turns. -/
theorem parseData_expires (turns : Nat) {n length : Nat} (few : turns < n) {p : SubParser} {settings : Settings}
    {pending buf : Bytes} (holds : Holds p settings pending) (filled : buf ≠ []) {user : σ} {final : Verdict × σ}
    (spans : Spans protocol n length user settings (pending ++ buf) final) :
    (protocol.parseData turns ⟨some p, user⟩ buf).verdict = .expired := by
  induction turns generalizing n length p settings pending buf user with
  | zero => rfl
  | succ turns ih =>
    obtain ⟨small, element, complete⟩ := spans.small
    have whole : settings.firstElement (pending ++ buf ++ []) = some element := by rwa [List.append_nil]
    rcases write_small protocol.parse user holds small filled whole (protocol.fresh user) with
      ⟨taken, count, inside, result⟩ | ⟨p', holds', -⟩
    · rw [← holds.configured] at result
      have rest : (pending ++ buf).drop element.length = buf.drop taken := by
        rw [← count, ← List.drop_drop, List.drop_left' rfl]
      cases spans with
      | last _ _ _ _ => omega
      | @next n length _ user' _ settings' _ other _ _ first goes rest' =>
        rw [complete] at first
        cases first
        rw [← holds.configured] at goes
        rw [rest] at rest'
        have fresh : Holds (.new settings') settings' [] := by
          apply holds_new
          exact rest'.small.1.buffers
        have left : buf.drop taken ≠ [] := by
          intro none
          obtain ⟨small', other, again⟩ := rest'.small
          have incomplete := fresh.waiting.incomplete
          rw [fresh.configured, fresh.held] at incomplete
          rw [none, incomplete] at again
          cases again
        have more : taken ≠ buf.length := by
          rintro rfl
          exact left List.drop_length
        rw [parseData_delivered protocol turns result goes, if_pos ⟨rfl, more⟩]
        exact ih (Nat.lt_of_succ_lt_succ few) fresh left rest'
    · -- the element would not be there yet
      have incomplete := holds'.waiting.incomplete
      rw [holds'.configured, holds'.held, complete] at incomplete
      cases incomplete

end

end Mantids.Memory.Streams
