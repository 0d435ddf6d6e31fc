import Mantids.Memory.Fragmentation

/-! Runs of a parser over any pieces of a stream: whatever becomes of a write, the parser has read elements of the
stream one after the other, and no other ones. -/

set_option autoImplicit false

namespace Mantids.Memory.Streams

theorem Waiting.pending_le {p : SubParser} (waiting : Waiting p) :
    p.pending.length ≤ p.settings.parseDataTargetSize := by
  rw [waiting.length_pending]
  exact waiting.fits

section
variable {σ : Type}

/-- With one delimiter or a size a write is refused, or does what the stream says. -/
theorem call_or_refused (parse : Parse σ) (user : σ) {p : SubParser} (waiting : Waiting p)
    (single : p.parseMode ≠ .multiDelimiter) {buf : Bytes} (filled : buf ≠ []) (fresh : Fresh) :
    Call parse user p buf (writeIntoParser parse user fresh p buf) ∨
      ∃ p', writeIntoParser parse user fresh p buf = failed user p' := by
  by_cases room : p.unparsedBuffer.getSizeLeft ≠ 0 → HasRoom p buf
  · exact .inl (write_call parse user waiting filled fresh ⟨room, fun mode => absurd mode single⟩)
  · right
    obtain ⟨left, crowded⟩ := Classical.not_imp.mp room
    have buffers := waiting.buffers
    simp only [writeIntoParser, filled, if_false]
    cases mode : p.parseMode with
    | delimiter => exact parseUpTo_crowded parse user waiting filled _ _ left crowded
    | size =>
      have some : buf.take p.unparsedBuffer.getSizeLeft ≠ [] := by simp [left, filled]
      have refused := BChunks.append_full waiting.positive some (Nat.not_le.mp crowded) waiting.chunks
      simp only [parseBySize, filled, if_false, refused, if_true]
      exact ⟨_, rfl⟩
    | multiDelimiter => exact absurd mode single
    | _ => simp [mode, ParseMode.Buffers] at buffers

variable (protocol : Protocol σ)

/-- Elements of the stream, read one after the other by a parser that stays open. -/
inductive ReadsTo : σ → Settings → Bytes → σ → Settings → Bytes → Prop where
  | refl (user : σ) (settings : Settings) (stream : Bytes) : ReadsTo user settings stream user settings stream
  | step {user user' last : σ} {settings settings' final : Settings} {stream rest : Bytes} {element : Element}
      (complete : settings.firstElement stream = some element)
      (goes : protocol.read user settings element.presented = (.open, ⟨some (.new settings'), user'⟩)) :
      ReadsTo user' settings' (stream.drop element.length) last final rest →
      ReadsTo user settings stream last final rest

variable {protocol} {user user' last : σ} {settings settings' final : Settings} {stream rest : Bytes}

/-- An open parser that has just been switched to knows the settings and the state. -/
theorem open_new_inj (same : ((.open, ⟨some (.new settings), user⟩) : Verdict × Parser σ) =
    (.open, ⟨some (.new settings'), user'⟩)) : settings = settings' ∧ user = user' := by
  have current := congrArg (fun parsed => parsed.2.currentParser.map SubParser.settings) same
  have users := congrArg (fun parsed => parsed.2.user) same
  simp only [Option.map_some, SubParser.settings_new, Option.some.injEq] at current users
  exact ⟨current, users⟩

theorem ReadsTo.trans {between : Bytes} (one : ReadsTo protocol user settings stream user' settings' between)
    (two : ReadsTo protocol user' settings' between last final rest) :
    ReadsTo protocol user settings stream last final rest := by
  induction one with
  | refl => exact two
  | step complete goes _ ih => exact .step complete goes (ih two)

theorem ReadsTo.snoc {between : Bytes} (one : ReadsTo protocol user settings stream user' settings' between)
    {element : Element} (complete : settings'.firstElement between = some element)
    (goes : protocol.read user' settings' element.presented = (.open, ⟨some (.new final), last⟩)) :
    ReadsTo protocol user settings stream last final (between.drop element.length) :=
  one.trans (.step complete goes (.refl _ _ _))

end

/-- States in which elements are read up to one delimiter or of a size. -/
structure Elementwise {σ : Type} (protocol : Protocol σ) (Inside : σ → Settings → Prop) : Prop where
  buffers : ∀ user settings, Inside user settings → settings.parseMode.Buffers ∧ settings.parseMode ≠ .multiDelimiter
  keeps : ∀ user settings stream element parser, Inside user settings → settings.firstElement stream = some element →
    protocol.read user settings element.presented = (.open, parser) →
    ∃ settings', parser.currentParser = some (.new settings') ∧ Inside parser.user settings'

section
variable {σ : Type} {protocol : Protocol σ} {Inside : σ → Settings → Prop} (elementwise : Elementwise protocol Inside)
  {user : σ} {settings : Settings} {stream : Bytes}

variable (protocol Inside user settings stream) in
/-- An open parser has read so far, and keeps back what it was given of the next element. -/
structure HasRead (parser : Parser σ) (rest : Bytes) : Prop where
  current : ∃ p, parser.currentParser = some p ∧ Waiting p ∧ Inside parser.user p.settings ∧
    ReadsTo protocol user settings stream parser.user p.settings (p.pending ++ rest)

variable (protocol user settings stream) in
/-- A parser that is no longer open has read so far, and one more element unless a write was refused. -/
inductive HasStopped : Verdict → Parser σ → Prop where
  | refused {verdict : Verdict} {parser : Parser σ} {final : Settings} {rest : Bytes}
      (verdict_eq : verdict = .failed ∨ verdict = .expired)
      (reads : ReadsTo protocol user settings stream parser.user final rest) : HasStopped verdict parser
  | read {verdict : Verdict} {parser : Parser σ} {last : σ} {final : Settings} {rest : Bytes} {element : Element}
      (reads : ReadsTo protocol user settings stream last final rest)
      (complete : final.firstElement rest = some element)
      (stops : protocol.read last final element.presented = (verdict, parser)) (ended : verdict ≠ .open) :
      HasStopped verdict parser

include elementwise

/-- One call of `parseData`. -/
theorem parseData_elements (turns : Nat) {parser : Parser σ} {buf rest : Bytes} (filled : buf ≠ [])
    (hasRead : HasRead protocol Inside user settings stream parser (buf ++ rest)) :
    ((protocol.parseData turns parser buf).verdict = .open →
        HasRead protocol Inside user settings stream (protocol.parseData turns parser buf).parser rest) ∧
      ((protocol.parseData turns parser buf).verdict ≠ .open →
        HasStopped protocol user settings stream (protocol.parseData turns parser buf).verdict
          (protocol.parseData turns parser buf).parser) := by
  induction turns generalizing parser buf with
  | zero =>
    obtain ⟨p, -, -, -, reads⟩ := hasRead
    exact ⟨fun opened => (by cases opened), fun _ => .refused (.inr rfl) reads⟩
  | succ turns ih =>
    obtain ⟨p, current, waiting, inside, reads⟩ := hasRead
    obtain ⟨currentParser, user'⟩ := parser
    dsimp only at current inside reads
    subst current
    rcases call_or_refused protocol.parse user' waiting (elementwise.buffers _ _ inside).2 filled (protocol.fresh user')
      with call | ⟨p', refused⟩
    · generalize result : writeIntoParser protocol.parse user' (protocol.fresh user') p buf = written at call
      cases call with
      | @element element taken complete count =>
        have bound := (Settings.firstElement_length_le complete).1
        rw [List.length_append] at bound
        have first := Settings.firstElement_append complete rest
        rw [List.append_assoc] at first
        have left : (p.pending ++ (buf ++ rest)).drop element.length = buf.drop taken ++ rest := by
          rw [← count, ← List.drop_drop, List.drop_left' rfl, List.drop_append_of_le_length (by omega)]
        cases read : protocol.read user' p.settings element.presented with
        | mk verdict next =>
          rw [parseData_delivered protocol turns result read]
          by_cases goes : verdict = .open
          · subst goes
            obtain ⟨settings', current, inside'⟩ := elementwise.keeps _ _ _ _ _ inside first read
            obtain ⟨currentParser, user''⟩ := next
            dsimp only at current inside'
            subst current
            have reads' := reads.snoc first read
            rw [left] at reads'
            have hasRead' : HasRead protocol Inside user settings stream ⟨some (.new settings'), user''⟩
                (buf.drop taken ++ rest) := by
              refine ⟨_, rfl, waiting_new (elementwise.buffers _ _ inside').1, inside', ?_⟩
              exact reads'
            by_cases last : taken = buf.length
            · rw [last, List.drop_length, List.nil_append] at hasRead'
              rw [if_neg (by simp [last])]
              exact ⟨fun _ => hasRead', fun ended => absurd rfl ended⟩
            · have more : buf.drop taken ≠ [] := by
                rw [ne_eq, List.drop_eq_nil_iff]
                omega
              rw [if_pos ⟨rfl, last⟩]
              exact ih more hasRead'
          · rw [if_neg (fun both => goes both.1)]
            exact ⟨fun opened => absurd opened goes, fun _ => .read reads first read goes⟩
      | @more p' taken waiting' settings' bound pending =>
        have left : p'.pending ++ (buf.drop taken ++ rest) = p.pending ++ (buf ++ rest) := by
          rw [pending, List.append_assoc, ← List.append_assoc (buf.take taken), List.take_append_drop]
        have hasRead' : HasRead protocol Inside user settings stream ⟨some p', user'⟩ (buf.drop taken ++ rest) := by
          refine ⟨p', rfl, waiting', ?_, ?_⟩
          · rw [settings']
            exact inside
          · rw [settings', left]
            exact reads
        rw [parseData_more protocol turns result]
        by_cases last : taken = buf.length
        · rw [last, List.drop_length, List.nil_append] at hasRead'
          rw [if_neg (by simp [last])]
          exact ⟨fun _ => hasRead', fun ended => absurd rfl ended⟩
        · have more : buf.drop taken ≠ [] := by
            rw [ne_eq, List.drop_eq_nil_iff]
            omega
          rw [if_pos last]
          exact ih more hasRead'
      | full incomplete full =>
        rw [parseData_refused protocol turns result]
        exact ⟨fun opened => (by cases opened), fun _ => .refused (.inl rfl) reads⟩
    · rw [parseData_refused protocol turns refused]
      exact ⟨fun opened => (by cases opened), fun _ => .refused (.inl rfl) reads⟩

/-- Writes of any pieces, until one fails or finishes. -/
theorem writeAll_elements {writes : List Bytes} (filled : ∀ buf ∈ writes, buf ≠ []) {parser : Parser σ} {rest : Bytes}
    (hasRead : HasRead protocol Inside user settings stream parser (writes.flatten ++ rest)) :
    ((protocol.writeAll parser writes).1 = .open →
        HasRead protocol Inside user settings stream (protocol.writeAll parser writes).2 rest) ∧
      ((protocol.writeAll parser writes).1 ≠ .open →
        HasStopped protocol user settings stream (protocol.writeAll parser writes).1 (protocol.writeAll parser writes).2) := by
  induction writes generalizing parser with
  | nil => exact ⟨fun _ => hasRead, fun ended => absurd rfl ended⟩
  | cons buf later ih =>
    obtain ⟨first, others⟩ := List.forall_mem_cons.mp filled
    rw [List.flatten_cons, List.append_assoc] at hasRead
    obtain ⟨goes, halts⟩ := parseData_elements elementwise (protocol.maxTTL + 1) first hasRead
    rw [Protocol.writeAll, Protocol.write]
    split
    case isTrue opened => exact ih others (goes opened)
    case isFalse ended => exact ⟨fun opened => absurd opened ended, fun _ => halts ended⟩

end

end Mantids.Memory.Streams
