import Mantids.Memory.LineProtocols

/-! A parser that may leave its sub parser also where the change fails, written to whatever has come of the writes
before. -/

set_option autoImplicit false

namespace Mantids.Memory.Streams

/-- As `Protocol`; a change tells whether it has succeeded, and where it has left the parser in any case. -/
structure Switching (σ : Type) where
  parse : Parse σ
  changeToNextParser : σ → Bool × Option Settings × σ
  fresh : σ → Fresh
  maxTTL : Nat

/-- A sub parser is written to, in this state. -/
structure Addressed (σ : Type) where
  user : σ
  subParser : SubParser
  buf : Bytes

namespace Switching

section
variable {σ : Type} (switching : Switching σ)

/-- What the status asks of the parser. -/
def turn (status : ParseStatus) (p : SubParser) (user : σ) : Verdict × Parser σ :=
  match status with
  | .error => (.failed, ⟨some p, user⟩)
  | .getMoreData => (.open, ⟨some p, user⟩)
  | .gotoNextSubParser =>
    let (changed, settings, user) := switching.changeToNextParser user
    (if changed = false then .failed else if settings = none then .finished else .open, ⟨settings.map .new, user⟩)

/-- `parseData`, called with `turns` calls left, and the calls of sub parsers on the way. -/
def parseData : (turns : Nat) → Parser σ → Bytes → Verdict × Parser σ × List (Addressed σ)
  | 0, parser, _ => (.expired, parser, [])
  | turns + 1, parser, buf =>
    match parser.currentParser with
    | none => if buf = [] then (.failed, parser, []) else parseData turns parser buf
    | some p =>
      let call : Addressed σ := ⟨parser.user, p, buf⟩
      let written := writeIntoParser switching.parse parser.user (switching.fresh parser.user) p buf
      match written.taken with
      | none => (.failed, ⟨some written.subParser, written.user⟩, [call])
      | some taken =>
        let (verdict, parser) := switching.turn written.status written.subParser written.user
        if verdict = .open ∧ taken ≠ buf.length then
          let (verdict, parser, calls) := parseData turns parser (buf.drop taken)
          (verdict, parser, call :: calls)
        else (verdict, parser, [call])

/-- One write after the other, whatever comes of them; one of no bytes is the end of the stream. -/
def feed : Parser σ → List Bytes → Parser σ × List (Addressed σ)
  | parser, [] => (parser, [])
  | parser, buf :: later =>
    let (_, parser, calls) := switching.parseData (switching.maxTTL + 1) parser buf
    let (parser, more) := feed parser later
    (parser, calls ++ more)

end

/-! ## What holds while there is a sub parser, and what after -/

section
variable {σ : Type} (Alive Done : σ → Prop)

/-- The state, by whether there still is a sub parser. -/
structure Stays (parser : Parser σ) : Prop where
  alive : ∀ p, parser.currentParser = some p → Alive parser.user
  done : parser.currentParser = none → Done parser.user

/-- What a sub parser does to the state, and what a change leaves. -/
structure Keeps (switching : Switching σ) : Prop where
  parse : ∀ user settings presented, Alive user → Alive (switching.parse user settings presented).2.2
  switches : ∀ user settings, Alive user → (switching.changeToNextParser user).2.1 = some settings →
    Alive (switching.changeToNextParser user).2.2
  ends : ∀ user, Alive user → (switching.changeToNextParser user).2.1 = none →
    Done (switching.changeToNextParser user).2.2

variable {Alive Done}

theorem stays_some {p : SubParser} {user : σ} (alive : Alive user) : Stays Alive Done ⟨some p, user⟩ :=
  ⟨fun _ _ => alive, fun none => by cases none⟩

variable {switching : Switching σ} (keeps : Keeps Alive Done switching)
include keeps

theorem turn_stays (status : ParseStatus) (p : SubParser) {user : σ} (alive : Alive user) :
    Stays Alive Done (switching.turn status p user).2 := by
  cases status with
  | error => exact stays_some alive
  | getMoreData => exact stays_some alive
  | gotoNextSubParser =>
    have switches := keeps.switches user
    have ends := keeps.ends user alive
    unfold turn
    generalize switching.changeToNextParser user = result at switches ends
    obtain ⟨changed, _ | settings, user'⟩ := result
    · exact ⟨fun _ some => (by cases some), fun _ => ends rfl⟩
    · exact stays_some (switches settings alive rfl)

/-- One call of `parseData`: sub parsers are written to in live states only. -/
theorem parseData_stays (turns : Nat) {parser : Parser σ} (stays : Stays Alive Done parser) (buf : Bytes) :
    Stays Alive Done (switching.parseData turns parser buf).2.1 ∧
      ∀ call ∈ (switching.parseData turns parser buf).2.2, Alive call.user := by
  induction turns generalizing parser buf with
  | zero => exact ⟨stays, List.forall_mem_nil _⟩
  | succ turns ih =>
    obtain ⟨_ | p, user⟩ := parser
    · unfold parseData
      dsimp only
      split
      · exact ⟨stays, List.forall_mem_nil _⟩
      · exact ih stays buf
    · have alive : Alive user := stays.alive p rfl
      have written : Alive (writeIntoParser switching.parse user (switching.fresh user) p buf).user := by
        rcases user_writeIntoParser switching.parse user (switching.fresh user) p buf with same | ⟨settings, presented, same⟩
        · rw [same]
          exact alive
        · rw [same]
          exact keeps.parse user settings presented alive
      unfold parseData
      dsimp only
      generalize writeIntoParser switching.parse user (switching.fresh user) p buf = result at written
      split
      · exact ⟨stays_some written, List.forall_mem_singleton.mpr alive⟩
      · have turned := turn_stays keeps result.status result.subParser written
        generalize switching.turn result.status result.subParser result.user = turn at turned
        obtain ⟨verdict, parser⟩ := turn
        dsimp only at turned ⊢
        split
        · obtain ⟨stays', calls⟩ := ih turned (buf.drop _)
          exact ⟨stays', List.forall_mem_cons.mpr ⟨alive, calls⟩⟩
        · exact ⟨turned, List.forall_mem_singleton.mpr alive⟩

/-- Any writes, also behind one that has failed or ended the parsing. -/
theorem feed_stays {parser : Parser σ} (stays : Stays Alive Done parser) (writes : List Bytes) :
    Stays Alive Done (switching.feed parser writes).1 ∧
      ∀ call ∈ (switching.feed parser writes).2, Alive call.user := by
  induction writes generalizing parser with
  | nil => exact ⟨stays, List.forall_mem_nil _⟩
  | cons buf later ih =>
    obtain ⟨stays', calls⟩ := parseData_stays keeps (switching.maxTTL + 1) stays buf
    obtain ⟨finally', more⟩ := ih stays'
    exact ⟨finally', List.forall_mem_append.mpr ⟨calls, more⟩⟩

end

end Switching

end Mantids.Memory.Streams
