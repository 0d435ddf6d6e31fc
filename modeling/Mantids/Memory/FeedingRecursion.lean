import Mantids.Memory.Parser
import Mantids.Memory.StreamableObject

/-! The recursion of `Parser::parseData` (`parser.cpp`) over sub parsers of any behaviour, with its counter of calls
as the 64-bit word that it is. -/

set_option autoImplicit false

namespace Mantids.Memory.Streams

open StreamableObject

/-- What the sub parsers of a parser and the protocol over them do; `S` is the state of all of them. -/
structure Feeder (S : Type) where
  /-- The current parser is not the null pointer. -/
  hasParser : S → Bool
  /-- The bytes that the current parser takes, none where it fails, and its status behind the call. -/
  writeIntoParser : S → Bytes → Option Nat × ParseStatus × S
  changeToNextParser : S → Bool × S

/-- What the nested calls of `parseData` amount to. -/
structure Fed (S : Type) where
  result : Bool × Nat
  finished : Bool
  state : S
  calls : Nat
  consumed : List Nat

section
variable {S : Type}

/-- One more call around those of `fed`, whose sub parser has taken something. -/
def Fed.around (fed : Fed S) (taken : Nat) : Fed S where
  result := if fed.result.1 = false then fed.result else (true, fed.result.2 + taken)
  finished := fed.finished
  state := fed.state
  calls := fed.calls + 1
  consumed := taken :: fed.consumed

/-- How a call of `parseData` goes on behind its sub parser. -/
inductive Advance (S : Type) where
  | fails (state : S)
  | returns (taken : Nat) (finished : Bool) (state : S)
  | continues (taken : Nat) (state : S)

namespace Feeder
variable (feeder : Feeder S)

def turn (s : S) (buf : Bytes) : Advance S :=
  if feeder.hasParser s then
    match feeder.writeIntoParser s buf with
    | (none, _, s) => .fails s
    | (some taken, .gotoNextSubParser, s) =>
      match feeder.changeToNextParser s with
      | (false, s) => .fails s
      | (true, s) =>
        if feeder.hasParser s = false then .returns taken true s
        else if taken = buf.length then .returns taken false s
        else .continues taken s
    | (some taken, .getMoreData, s) => if taken = buf.length then .returns taken false s else .continues taken s
    | (some _, .error, s) => .fails s
  -- nothing is written, which is all of an empty buffer
  else if buf = [] then .fails s
  else .continues 0 s

/-- `parseData`, with `depth` nested calls allowed. -/
def parseData (maxTTL : UInt64) : (depth : Nat) → (ttl : UInt64) → S → Bytes → Option (Fed S)
  | 0, _, _, _ => none
  | depth + 1, ttl, s, buf =>
    if maxTTL < ttl then some ⟨(false, 0), false, s, 1, []⟩
    else
      match feeder.turn s buf with
      | .fails s => some ⟨(false, 0), false, s, 1, []⟩
      | .returns taken finished s => some ⟨(true, taken), finished, s, 1, [taken]⟩
      | .continues taken s => (parseData maxTTL depth (ttl + 1) s (buf.drop taken)).map (·.around taken)

/-- What `write` makes of the calls: its own status, and the status that is carried along. -/
def statuses (fed : Fed S) (wrStat : Status) : Status × Status :=
  let wrStat := if fed.finished then { wrStat with finish := true } else wrStat
  if fed.result.1 = false then (⟨0, false, fed.finished⟩, { wrStat with succeed := false })
  else (⟨fed.result.2, true, fed.finished⟩, wrStat.add ⟨fed.result.2, true, fed.finished⟩)

def write (maxTTL : UInt64) (depth : Nat) (s : S) (buf : Bytes) (wrStat : Status) :
    Option ((Status × Status) × Fed S) :=
  (feeder.parseData maxTTL depth 0 s buf).map fun fed => (statuses fed wrStat, fed)

/-! ## One call -/

/-- No call of a sub parser reports more than it was given. -/
def Bounded : Prop :=
  ∀ (s : S) (buf : Bytes) (taken : Nat), (feeder.writeIntoParser s buf).1 = some taken → taken ≤ buf.length

end Feeder

/-- What is taken of `count` bytes in a turn; all of them where the parser returns without an end. -/
def Advance.Bounded (count : Nat) : Advance S → Prop
  | .fails _ => True
  | .returns taken finished _ => taken ≤ count ∧ (finished = false → taken = count)
  | .continues taken _ => taken ≤ count

namespace Feeder
variable {feeder : Feeder S}

theorem turn_bounded (bounded : feeder.Bounded) (s : S) (buf : Bytes) : (feeder.turn s buf).Bounded buf.length := by
  unfold turn
  split
  case isFalse =>
    split
    case isTrue => trivial
    case isFalse => exact Nat.zero_le _
  case isTrue =>
    split
    case h_1 => trivial
    case h_2 written =>
      have le := bounded s buf _ (congrArg Prod.fst written)
      split
      case h_1 => trivial
      case h_2 =>
        split
        case isTrue => exact ⟨le, fun more => Bool.noConfusion more⟩
        case isFalse =>
          split
          case isTrue whole => exact ⟨le, fun _ => whole⟩
          case isFalse => exact le
    case h_3 written =>
      have le := bounded s buf _ (congrArg Prod.fst written)
      split
      case isTrue whole => exact ⟨le, fun _ => whole⟩
      case isFalse => exact le
    case h_4 => trivial

end Feeder

/-! ## The nested calls -/

/-- The bytes are accounted for: none on failure, what the sub parsers took where the parser has finished, and all
of them otherwise. -/
def Fed.Accounts (fed : Fed S) (count : Nat) : Prop :=
  fed.result = (false, 0) ∧ fed.finished = false ∨
    fed.result = (true, fed.consumed.sum) ∧ fed.consumed.sum ≤ count ∧
      (fed.finished = false → fed.consumed.sum = count)

theorem Fed.Accounts.around {fed : Fed S} {count taken : Nat} (accounts : fed.Accounts (count - taken))
    (le : taken ≤ count) : (fed.around taken).Accounts count := by
  rcases accounts with ⟨failed, more⟩ | ⟨result, sum, whole⟩
  · left
    exact ⟨by rw [Fed.around, failed, if_pos rfl], more⟩
  · right
    refine ⟨?_, ?_, ?_⟩
    · simp only [Fed.around, result, Bool.true_eq_false, if_false, List.sum_cons, Nat.add_comm]
    · simp only [Fed.around, List.sum_cons]
      omega
    · intro more
      have all := whole more
      simp only [Fed.around, List.sum_cons]
      omega

namespace Feeder
variable {feeder : Feeder S} {maxTTL : UInt64}

/-- More nested calls than are made change nothing. -/
theorem parseData_more {depth : Nat} {ttl : UInt64} {s : S} {buf : Bytes} {fed : Fed S}
    (ends : feeder.parseData maxTTL depth ttl s buf = some fed) (more : Nat) :
    feeder.parseData maxTTL (depth + more) ttl s buf = some fed := by
  induction depth generalizing ttl s buf fed with
  | zero => cases ends
  | succ depth ih =>
    rw [Nat.succ_add]
    rw [parseData] at ends ⊢
    split at ends
    case isTrue expired => rwa [if_pos expired]
    case isFalse alive =>
      rw [if_neg alive]
      cases kind : feeder.turn s buf with
      | fails s => simpa only [kind] using ends
      | returns taken finished s => simpa only [kind] using ends
      | continues taken s =>
        simp only [kind] at ends ⊢
        obtain ⟨inner, call, rfl⟩ := Option.map_eq_some_iff.mp ends
        rw [ih call, Option.map_some]

/-- Each call counts, also one that takes nothing, so that the counter passes its limit. -/
theorem parseData_ends (bounded : feeder.Bounded) (limit : maxTTL.toNat < 2 ^ 64 - 1) {depth : Nat} {ttl : UInt64}
    (counted : ttl.toNat ≤ maxTTL.toNat + 1) (enough : maxTTL.toNat + 2 ≤ depth + ttl.toNat) (s : S) (buf : Bytes) :
    ∃ fed, feeder.parseData maxTTL depth ttl s buf = some fed ∧ fed.calls + ttl.toNat ≤ maxTTL.toNat + 2 ∧
      fed.Accounts buf.length := by
  induction depth generalizing ttl s buf with
  | zero => omega
  | succ depth ih =>
    rw [parseData]
    by_cases expired : maxTTL < ttl
    · rw [if_pos expired]
      exact ⟨_, rfl, by dsimp only; omega, .inl ⟨rfl, rfl⟩⟩
    rw [if_neg expired]
    have alive : ttl.toNat ≤ maxTTL.toNat := UInt64.not_lt.mp expired
    have next : (ttl + 1).toNat = ttl.toNat + 1 := by
      rw [UInt64.toNat_add, UInt64.toNat_one, Nat.mod_eq_of_lt (by omega)]
    have turns := turn_bounded bounded s buf
    cases kind : feeder.turn s buf with
    | fails s => exact ⟨_, rfl, by dsimp only; omega, .inl ⟨rfl, rfl⟩⟩
    | returns taken finished s =>
      rw [kind] at turns
      refine ⟨_, rfl, by dsimp only; omega, .inr ⟨?_, ?_, ?_⟩⟩
      · simp only [List.sum_cons, List.sum_nil, Nat.add_zero]
      · simpa only [List.sum_cons, List.sum_nil, Nat.add_zero] using turns.1
      · simpa only [List.sum_cons, List.sum_nil, Nat.add_zero] using turns.2
    | continues taken s =>
      rw [kind] at turns
      obtain ⟨fed, call, calls, accounts⟩ := @ih (ttl + 1) (by omega) (by omega) s (buf.drop taken)
      simp only [call, Option.map_some]
      refine ⟨_, rfl, ?_, ?_⟩
      · simp only [Fed.around]
        omega
      · rw [List.length_drop] at accounts
        exact accounts.around turns

/-- What a write is to do: it returns within `maxTTL + 2` calls, and what it reports is all of the buffer while the
parser has not finished, what its sub parsers took once it has, or a failure. -/
def Feeds (feeder : Feeder S) (maxTTL : UInt64) (s : S) (buf : Bytes) (wrStat : Status) : Prop :=
  ∃ ret carried fed, (∀ depth, maxTTL.toNat + 2 ≤ depth →
      feeder.write maxTTL depth s buf wrStat = some ((ret, carried), fed)) ∧
    fed.calls ≤ maxTTL.toNat + 2 ∧
    (ret = ⟨buf.length, true, false⟩ ∧ carried = wrStat.add ret ∨
      ret = ⟨fed.consumed.sum, true, true⟩ ∧ fed.consumed.sum ≤ buf.length ∧ carried = wrStat.add ret ∨
      ret = ⟨0, false, false⟩ ∧ carried = { wrStat with succeed := false })

theorem feeds_of_limit (bounded : feeder.Bounded) (limit : maxTTL.toNat < 2 ^ 64 - 1) (s : S) (buf : Bytes)
    (wrStat : Status) : feeder.Feeds maxTTL s buf wrStat := by
  have start : (0 : UInt64).toNat = 0 := UInt64.toNat_zero
  obtain ⟨fed, call, calls, accounts⟩ :=
    @parseData_ends _ _ _ bounded limit (maxTTL.toNat + 2) 0 (by omega) (by omega) s buf
  refine ⟨(statuses fed wrStat).1, (statuses fed wrStat).2, fed, ?_, by omega, ?_⟩
  · intro depth enough
    have more := parseData_more call (depth - (maxTTL.toNat + 2))
    rw [Nat.add_sub_cancel' enough] at more
    rw [write, more]
    rfl
  · unfold statuses
    rcases accounts with ⟨failed, going⟩ | ⟨result, sum, whole⟩
    · right; right
      simp only [failed, going, if_true, Bool.false_eq_true, if_false, and_self]
    · simp only [result, Bool.true_eq_false, if_false]
      cases finished : fed.finished with
      | false =>
        left
        rw [whole finished]
        simp only [Bool.false_eq_true, if_false, and_self]
      | true =>
        right; left
        refine ⟨rfl, sum, ?_⟩
        simp only [if_true, Status.add, Bool.or_true]

end Feeder

end

namespace Feeder

/-- So many parsers, each of which takes a byte and hands over to the next. -/
def byteByByte : Feeder Nat where
  hasParser s := s ≠ 0
  writeIntoParser s buf := (some (min 1 buf.length), .gotoNextSubParser, s)
  changeToNextParser s := (true, s - 1)

theorem byteByByte_bounded : byteByByte.Bounded := by
  intro s buf taken written
  obtain rfl := Option.some.inj written
  exact Nat.min_le_right _ _

theorem feeds_bytes : byteByByte.Feeds 4096 2 [65, 66, 67] .new :=
  feeds_of_limit byteByByte_bounded (by decide) 2 [65, 66, 67] .new

/-- A parser without a current one, which is never called. -/
def idle : Feeder Unit where
  hasParser _ := false
  writeIntoParser s _ := (none, .error, s)
  changeToNextParser s := (false, s)

/-- The largest limit is never passed: behind it the counter goes around to zero. -/
theorem idle_endless (depth : Nat) (ttl : UInt64) : idle.parseData 18446744073709551615 depth ttl () [0] = none := by
  induction depth generalizing ttl with
  | zero => rfl
  | succ depth ih =>
    have alive : ¬(18446744073709551615 : UInt64) < ttl := UInt64.not_lt.mpr (Nat.le_of_lt_succ ttl.toNat_lt)
    rw [parseData, if_neg alive]
    have idling : idle.turn () [0] = .continues 0 () := rfl
    simp only [idling, List.drop_zero, ih, Option.map_none]

theorem not_feeds : ¬∀ (S : Type) (feeder : Feeder S), feeder.Bounded →
    ∀ (maxTTL : UInt64) (s : S) (buf : Bytes) (wrStat : Status), feeder.Feeds maxTTL s buf wrStat := by
  intro claim
  have bounded : idle.Bounded := by
    intro s buf taken written
    cases written
  obtain ⟨ret, carried, fed, returns, -⟩ := claim Unit idle bounded 18446744073709551615 () [0] .new
  have call := returns _ (Nat.le_refl _)
  rw [write, idle_endless] at call
  cases call

end Feeder

/-! ## The protocols of the library -/

namespace Protocol
variable {σ : Type} (protocol : Protocol σ)

def feeder : Feeder (Parser σ) where
  hasParser s := s.currentParser.isSome
  writeIntoParser s buf :=
    match s.currentParser with
    | none => (none, .error, s)
    | some p =>
      let written := writeIntoParser protocol.parse s.user (protocol.fresh s.user) p buf
      (written.taken, written.status, ⟨some written.subParser, written.user⟩)
  changeToNextParser s :=
    match protocol.changeToNextParser s.user with
    | none => (false, s)
    | some (none, user) => (true, ⟨none, user⟩)
    | some (some settings, user) => (true, ⟨some (.new settings), user⟩)

/-- A turn that has written into a sub parser goes on as its verdict says. -/
theorem feeder_turn {p sub : SubParser} {user later : σ} {buf : Bytes} {taken : Nat} {status : ParseStatus}
    {presented : List Presented}
    (wrote : writeIntoParser protocol.parse user (protocol.fresh user) p buf =
      ⟨some taken, status, sub, later, presented⟩) :
    protocol.feeder.turn ⟨some p, user⟩ buf =
      match protocol.turn status sub later with
      | (.failed, parser) | (.expired, parser) => .fails parser
      | (.finished, parser) => .returns taken true parser
      | (.open, parser) => if taken = buf.length then .returns taken false parser else .continues taken parser := by
  simp only [Feeder.turn, feeder, Option.isSome_some, if_true, wrote]
  cases status with
  | error => rfl
  | getMoreData => rfl
  | gotoNextSubParser =>
    simp only [Protocol.turn]
    cases protocol.changeToNextParser later with
    | none => rfl
    | some next =>
      obtain ⟨settings, further⟩ := next
      cases settings with
      | none => rfl
      | some settings => rfl

theorem result_around {fed : Fed (Parser σ)} {parsed : Parsed σ} (same : fed.result = parsed.result)
    (call : SubParser × Bytes) (presented : List Presented) (taken : Nat) :
    (fed.around taken).result = (parsed.after call presented taken).result := by
  simp only [Fed.around, same, Parsed.result, Parsed.after]
  cases parsed.verdict with
  | «open» => simp only [Bool.true_eq_false, if_false, Nat.add_comm]
  | finished => simp only [Bool.true_eq_false, if_false, Nat.add_comm]
  | failed => rfl
  | expired => rfl

/-- The turns that are left are those up to the limit of the counter. -/
theorem feeder_parseData {maxTTL : UInt64} (limit : maxTTL.toNat < 2 ^ 64 - 1) {turns depth : Nat} {ttl : UInt64}
    (left : ttl.toNat + turns = maxTTL.toNat + 1) (enough : turns < depth) (s : Parser σ) (buf : Bytes) :
    ∃ fed, protocol.feeder.parseData maxTTL depth ttl s buf = some fed ∧
      fed.result = (protocol.parseData turns s buf).result ∧ fed.state = (protocol.parseData turns s buf).parser := by
  induction turns generalizing depth ttl s buf with
  | zero =>
    obtain ⟨depth, rfl⟩ : ∃ less, depth = less + 1 := ⟨depth - 1, by omega⟩
    rw [Feeder.parseData, if_pos (UInt64.lt_iff_toNat_lt.mpr (by omega))]
    exact ⟨_, rfl, rfl, rfl⟩
  | succ turns ih =>
    obtain ⟨depth, rfl⟩ : ∃ less, depth = less + 1 := ⟨depth - 1, by omega⟩
    have alive : ¬maxTTL < ttl := UInt64.not_lt.mpr (UInt64.le_iff_toNat_le.mpr (by omega))
    have next : (ttl + 1).toNat = ttl.toNat + 1 := by
      rw [UInt64.toNat_add, UInt64.toNat_one, Nat.mod_eq_of_lt (by omega)]
    -- the calls that are nested in this one, on what is left of the buffer
    have nested := fun (s : Parser σ) (buf : Bytes) => @ih depth (ttl + 1) (by omega) (by omega) s buf
    rw [Feeder.parseData, if_neg alive, Protocol.parseData]
    obtain ⟨current, user⟩ := s
    cases current with
    | none =>
      by_cases bare : buf = []
      · have turn : protocol.feeder.turn ⟨none, user⟩ buf = .fails ⟨none, user⟩ := by
          simp only [Feeder.turn, feeder, Option.isSome_none, Bool.false_eq_true, if_false, if_pos bare]
        simp only [turn, if_pos bare]
        exact ⟨_, rfl, rfl, rfl⟩
      · have turn : protocol.feeder.turn ⟨none, user⟩ buf = .continues 0 ⟨none, user⟩ := by
          simp only [Feeder.turn, feeder, Option.isSome_none, Bool.false_eq_true, if_false, if_neg bare]
        obtain ⟨fed, call, result, state⟩ := nested ⟨none, user⟩ buf
        simp only [turn, if_neg bare, List.drop_zero, call, Option.map_some]
        refine ⟨_, rfl, ?_, state⟩
        rw [← result]
        simp only [Fed.around, Nat.add_zero]
        split
        case isTrue => rfl
        case isFalse succeeds => rw [← Bool.eq_true_of_not_eq_false succeeds]
    | some p =>
      generalize wrote : writeIntoParser protocol.parse user (protocol.fresh user) p buf = written
      obtain ⟨taken, status, sub, later, presented⟩ := written
      simp only [wrote]
      cases taken with
      | none =>
        have turn : protocol.feeder.turn ⟨some p, user⟩ buf = .fails ⟨some sub, later⟩ := by
          simp only [Feeder.turn, feeder, Option.isSome_some, if_true, wrote]
        simp only [turn]
        exact ⟨_, rfl, rfl, rfl⟩
      | some taken =>
        have turn := protocol.feeder_turn wrote
        generalize protocol.turn status sub later = asked at turn ⊢
        obtain ⟨verdict, parser⟩ := asked
        cases verdict with
        | «open» =>
          by_cases whole : taken = buf.length
          · simp only [turn, whole, if_true, ne_eq, not_true_eq_false, and_false, if_false]
            exact ⟨_, rfl, rfl, rfl⟩
          · obtain ⟨fed, call, result, state⟩ := nested parser (buf.drop taken)
            simp only [turn, whole, if_false, ne_eq, not_false_eq_true, and_self, if_true, call, Option.map_some]
            exact ⟨_, rfl, result_around result _ _ _, state⟩
        | finished =>
          simp only [turn, reduceCtorEq, false_and, if_false]
          exact ⟨_, rfl, rfl, rfl⟩
        | failed =>
          simp only [turn, reduceCtorEq, false_and, if_false]
          exact ⟨_, rfl, rfl, rfl⟩
        | expired =>
          simp only [turn, reduceCtorEq, false_and, if_false]
          exact ⟨_, rfl, rfl, rfl⟩

/-- A write of the protocols that are modelled with the number of their turns. -/
theorem feeder_write {maxTTL : UInt64} (same : maxTTL.toNat = protocol.maxTTL) (limit : protocol.maxTTL < 2 ^ 64 - 1)
    (s : Parser σ) (buf : Bytes) :
    ∃ fed, protocol.feeder.parseData maxTTL (protocol.maxTTL + 2) 0 s buf = some fed ∧
      fed.result = (protocol.write s buf).result ∧ fed.state = (protocol.write s buf).parser := by
  apply feeder_parseData
  · omega
  · rw [UInt64.toNat_zero, Nat.zero_add, same]
  · exact Nat.lt_succ_self _

end Protocol

end Mantids.Memory.Streams
