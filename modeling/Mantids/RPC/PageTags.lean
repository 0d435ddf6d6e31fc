import Mantids.Protocols.SecurityHeaders

/-! The tags of a page (`procResource_JProcessor` of `webclienthandler.cpp`): each is replaced in the text that is
scanned. -/

set_option autoImplicit false

namespace Mantids.RPC.PageTags

open Memory MIME HTTP.Headers

/-! ## The regular expression -/

/-- The groups of a match, and its length. -/
structure Tag where
  command : Bytes
  value : Bytes
  length : Nat
  deriving DecidableEq

/-- Of `[a-zA-Z\/]`. -/
def isCommand (byte : UInt8) : Bool := (97 ≤ byte && byte ≤ 122) || (65 ≤ byte && byte ≤ 90) || byte = 47

/-- What follows the colon: the value ends at the first `%`, and the blanks before it are the value's. -/
def bodyAt (command body : Bytes) : Option Tag :=
  if command ≠ [] ∧ ascii "%>" <+: body.dropWhile (· ≠ 37) then
    some ⟨command, (body.dropWhile (· = 32)).takeWhile (· ≠ 37),
      4 + command.length + (body.takeWhile (· ≠ 37)).length + 2⟩
  else none

/-- A match of `<%[jJ]([a-zA-Z\/]+):[ ]*([^%]*)[ ]*%>` at the front of the text. -/
def tagAt (text : Bytes) : Option Tag :=
  if ascii "<%j" <+: text ∨ ascii "<%J" <+: text then
    match (text.drop 3).dropWhile isCommand with
    | 58 :: body => bodyAt ((text.drop 3).takeWhile isCommand) body
    | _ => none
  else none

/-- The leftmost match, and where it is. -/
def search : Bytes → Option (Nat × Tag)
  | [] => none
  | byte :: rest =>
    match tagAt (byte :: rest) with
    | some tag => some (0, tag)
    | none => (search rest).map fun (found, tag) => (found + 1, tag)

/-! ## The loop -/

/-- The functions that give the values, with the request, the session and what else they change in `σ`. -/
structure HTMLIEngine (σ : Type) where
  jVAR : (scriptVarName value : Bytes) → σ → Bytes × σ
  jGETVAR : (scriptVarName value : Bytes) → σ → Bytes × σ
  jPOSTVAR : (scriptVarName value : Bytes) → σ → Bytes × σ
  jFUNC : (scriptVarName value : Bytes) → σ → Bytes × σ
  jSESSVAR : (scriptVarName value : Bytes) → σ → Bytes × σ

/-- Bytes of a text that were taken out, and what was put there. -/
structure Edit where
  pos : Nat
  removed : Bytes
  replacedBy : Bytes
  deriving DecidableEq

inductive Ending where
  | done
  | outOfRange
  | expired
  deriving DecidableEq

structure Processed (σ : Type) where
  ending : Ending
  input : Bytes
  state : σ
  edits : List Edit
  deriving DecidableEq

/-- What goes into a variable of the type `int`. -/
def toInt (number : Nat) : Int := (number : Int).bmod (2 ^ 32)

/-- The bytes that `replace` takes out; a length below zero is more than any text has, as a position is. -/
def removed (input : Bytes) (pos length : Int) : Option Bytes :=
  if pos < 0 ∨ input.length < pos then none
  else some (if length < 0 then input.drop pos.toNat else (input.drop pos.toNat).take length.toNat)

namespace HTMLIEngine

section
variable {σ : Type} (engine : HTMLIEngine σ)

/-- No command begins in two of these ways. -/
def replacedBy (tag : Tag) (state : σ) : Bytes × σ :=
  if istartsWith tag.command (ascii "VAR/") then engine.jVAR (tag.command.drop 4) tag.value state
  else if istartsWith tag.command (ascii "GETVAR/") then engine.jGETVAR (tag.command.drop 7) tag.value state
  else if istartsWith tag.command (ascii "POSTVAR/") then engine.jPOSTVAR (tag.command.drop 8) tag.value state
  else if istartsWith tag.command (ascii "FUNC/") then engine.jFUNC (tag.command.drop 5) tag.value state
  else if istartsWith tag.command (ascii "SESS/") then engine.jSESSVAR (tag.command.drop 5) tag.value state
  else (ascii "null", state)

/-- The loop from a position on, with the turns that it may take. -/
def procResourceJProcessor : (turns : Nat) → Bytes → (pos : Nat) → σ → Processed σ
  | 0, input, _, state => ⟨.expired, input, state, []⟩
  | turns + 1, input, pos, state =>
    match search (input.drop pos) with
    | none => ⟨.done, input, state, []⟩
    | some (found, tag) =>
      let (replacedBy, state) := engine.replacedBy tag state
      let absolutePos := toInt (pos + found)
      (removed input absolutePos (toInt tag.length)).elim ⟨.outOfRange, input, state, []⟩ fun bytes =>
        let pos := absolutePos.toNat
        let processed := procResourceJProcessor turns
          (input.take pos ++ replacedBy ++ input.drop (pos + bytes.length)) (pos + replacedBy.length) state
        { processed with edits := ⟨pos, bytes, replacedBy⟩ :: processed.edits }

end

end HTMLIEngine

/-! ## One pass -/

/-- A tag of a text, its bytes and what stands before it. -/
structure Piece where
  before : Bytes
  tag : Tag
  bytes : Bytes
  deriving DecidableEq

section bounds

theorem bodyAt_length {command body : Bytes} {tag : Tag} (here : bodyAt command body = some tag) :
    0 < tag.length ∧ tag.length ≤ 4 + command.length + body.length := by
  unfold bodyAt at here
  split at here
  case isTrue whole =>
    cases here
    have front := (List.takeWhile_append_dropWhile (p := (· ≠ 37)) (l := body))
    have length := congrArg List.length front
    have ends := whole.2.length_le
    rw [List.length_append] at length
    change 2 ≤ _ at ends
    exact ⟨by dsimp only; omega, by dsimp only; omega⟩
  case isFalse => cases here

theorem tagAt_length {text : Bytes} {tag : Tag} (here : tagAt text = some tag) :
    0 < tag.length ∧ tag.length ≤ text.length := by
  unfold tagAt at here
  split at here
  case isTrue front =>
    have three : 3 ≤ text.length := front.elim (·.length_le) (·.length_le)
    cases behind : (text.drop 3).dropWhile isCommand with
    | nil =>
      rw [behind] at here
      cases here
    | cons byte body =>
      have length := congrArg List.length (@List.takeWhile_append_dropWhile _ isCommand (text.drop 3))
      rw [List.length_append, List.length_drop, behind, List.length_cons] at length
      rw [behind] at here
      by_cases colon : byte = 58
      · subst colon
        have bounds := bodyAt_length here
        exact ⟨bounds.1, by omega⟩
      · simp [colon] at here
  case isFalse => cases here

theorem search_length {text : Bytes} {found : Nat} {tag : Tag} (here : search text = some (found, tag)) :
    0 < tag.length ∧ found + tag.length ≤ text.length := by
  induction text generalizing found with
  | nil => cases here
  | cons byte rest ih =>
    rw [search] at here
    cases first : tagAt (byte :: rest) with
    | some other =>
      rw [first] at here
      cases here
      have bounds := tagAt_length first
      exact ⟨bounds.1, by omega⟩
    | none =>
      rw [first] at here
      obtain ⟨later, found', same⟩ := Option.map_eq_some_iff.mp here
      cases same
      have bounds := ih found'
      rw [List.length_cons]
      exact ⟨bounds.1, by omega⟩

end bounds

/-- The tags of a text from the left, and what stands behind the last one. -/
def pieces (text : Bytes) : List Piece × Bytes :=
  match _here : search text with
  | none => ([], text)
  | some (found, tag) =>
    let later := pieces (text.drop (found + tag.length))
    (⟨text.take found, tag, (text.drop found).take tag.length⟩ :: later.1, later.2)
termination_by text.length
decreasing_by
  have bounds := search_length _here
  rw [List.length_drop]
  omega

/-- Nothing of a text is lost in its pieces. -/
theorem pieces_text (text : Bytes) :
    (pieces text).1.flatMap (fun piece => piece.before ++ piece.bytes) ++ (pieces text).2 = text := by
  induction text using pieces.induct with
  | case1 text none =>
    rw [pieces]
    split
    · rfl
    · rename_i here
      rw [none] at here
      cases here
  | case2 text found tag here ih =>
    rw [pieces]
    split
    · rename_i none
      rw [here] at none
      cases none
    · rename_i here'
      rw [here] at here'
      cases here'
      dsimp only
      rw [List.flatMap_cons, List.append_assoc, ih, List.append_assoc, ← List.drop_drop, List.take_append_drop,
        List.take_append_drop]

theorem pieces_none {text : Bytes} (none : search text = none) : pieces text = ([], text) := by
  rw [pieces]
  split
  · rfl
  · rename_i here
    rw [none] at here
    cases here

theorem pieces_some {text : Bytes} {found : Nat} {tag : Tag} (here : search text = some (found, tag)) :
    pieces text = (⟨text.take found, tag, (text.drop found).take tag.length⟩ ::
      (pieces (text.drop (found + tag.length))).1, (pieces (text.drop (found + tag.length))).2) := by
  rw [pieces]
  split
  · rename_i none
    rw [here] at none
    cases none
  · rename_i here'
    rw [here] at here'
    cases here'
    rfl

/-- A tag where it stands when its turn comes, how long it is, and whether the text ends with it. -/
structure Place where
  pos : Nat
  length : Nat
  ends : Bool
  deriving DecidableEq

/-- The variables of the type `int` hold the position, and the length does not matter at the end. -/
def Place.Fits (place : Place) : Prop :=
  place.pos < 2 ^ 31 ∧ (place.length < 2 ^ 31 ∨ 2 ^ 31 ≤ place.length % 2 ^ 32 ∧ place.ends = true)

instance (place : Place) : Decidable place.Fits := inferInstanceAs (Decidable (_ ∧ _))

namespace HTMLIEngine

section
variable {σ : Type} (engine : HTMLIEngine σ)

/-- Each tag of the text once, from the left, as the value of its command, with `written` bytes before it. -/
def onePass : (written : Nat) → List Piece → (rest : Bytes) → σ → Processed σ
  | _, [], rest, state => ⟨.done, rest, state, []⟩
  | written, piece :: later, rest, state =>
    let (replacedBy, state) := engine.replacedBy piece.tag state
    let processed := onePass (written + piece.before.length + replacedBy.length) later rest state
    { processed with
      input := piece.before ++ replacedBy ++ processed.input
      edits := ⟨written + piece.before.length, piece.bytes, replacedBy⟩ :: processed.edits }

def places : (written : Nat) → List Piece → (rest : Bytes) → σ → List Place
  | _, [], _, _ => []
  | written, piece :: later, rest, state =>
    let (replacedBy, state) := engine.replacedBy piece.tag state
    ⟨written + piece.before.length, piece.tag.length, later.isEmpty && rest.isEmpty⟩ ::
      places (written + piece.before.length + replacedBy.length) later rest state

/-- The loop ends, with the edits of one pass and no others. -/
def SinglePass (input : Bytes) (state : σ) : Prop :=
  ∃ turns, engine.procResourceJProcessor turns input 0 state = engine.onePass 0 (pieces input).1 (pieces input).2 state

/-- Every tag stands in the first 2 GiB of the text when its turn comes, and is shorter. -/
def Spared (input : Bytes) (state : σ) : Prop :=
  ∀ place ∈ engine.places 0 (pieces input).1 (pieces input).2 state, place.Fits

end

end HTMLIEngine

/-! ## One turn -/

theorem toInt_small {number : Nat} (small : number < 2 ^ 31) : toInt number = number :=
  Int.bmod_eq_of_le (by omega) (by omega)

/-- A position that does not fit is one before the text, or another. -/
theorem toInt_ne {number : Nat} (large : 2 ^ 31 ≤ number) : (toInt number).toNat ≠ number := by
  have bound : (number : Int).bmod (2 ^ 32) < (2 ^ 32 + 1) / 2 := Int.bmod_lt (by decide)
  unfold toInt
  omega

section
variable {input : Bytes} {pos length : Nat}

/-- What is taken out of the text where the tag begins is the tag exactly where the two numbers fit. -/
theorem removed_fits (inside : pos + length ≤ input.length) (fits : pos < 2 ^ 31)
    (short : length < 2 ^ 31 ∨ 2 ^ 31 ≤ length % 2 ^ 32 ∧ pos + length = input.length) :
    removed input (toInt pos) (toInt length) = some ((input.drop pos).take length) := by
  have here := toInt_small fits
  unfold removed
  rw [here, if_neg (by omega), Int.toNat_natCast]
  rcases short with small | large
  · rw [toInt_small small, if_neg (by omega), Int.toNat_natCast]
  · have negative : toInt length < 0 := by
      unfold toInt
      rw [Int.bmod_def]
      omega
    rw [if_pos negative, List.take_of_length_le]
    rw [List.length_drop]
    omega

theorem removed_other (inside : pos + length ≤ input.length) (fits : pos < 2 ^ 31) (large : 2 ^ 31 ≤ length)
    (behind : ¬(2 ^ 31 ≤ length % 2 ^ 32 ∧ pos + length = input.length)) :
    removed input (toInt pos) (toInt length) ≠ some ((input.drop pos).take length) := by
  have here := toInt_small fits
  unfold removed
  rw [here, if_neg (by omega), Int.toNat_natCast, ne_eq, Option.some.injEq]
  intro same
  have lengths := congrArg List.length same
  rw [List.length_take, List.length_drop] at lengths
  split at lengths
  case isTrue negative =>
    rw [List.length_drop] at lengths
    apply behind
    unfold toInt at negative
    rw [Int.bmod_def] at negative
    omega
  case isFalse positive =>
    have bound : (length : Int).bmod (2 ^ 32) < (2 ^ 32 + 1) / 2 := Int.bmod_lt (by decide)
    unfold toInt at lengths positive
    rw [List.length_take, List.length_drop] at lengths
    omega

end

/-! ## The whole loop -/

namespace HTMLIEngine

section
variable {σ : Type} (engine : HTMLIEngine σ)

theorem onePass_done (written : Nat) (listed : List Piece) (rest : Bytes) (state : σ) :
    (engine.onePass written listed rest state).ending = .done := by
  induction listed generalizing written state with
  | nil => rfl
  | cons piece later ih => exact ih _ _

theorem ends_iff (behind : Bytes) :
    ((pieces behind).1.isEmpty && (pieces behind).2.isEmpty) = true ↔ behind = [] := by
  rw [Bool.and_eq_true, List.isEmpty_iff, List.isEmpty_iff]
  constructor
  · intro both
    have text := pieces_text behind
    rw [both.1, both.2] at text
    exact text.symm
  · intro none
    rw [none, pieces_none rfl]
    exact ⟨rfl, rfl⟩

section turn
variable {front text : Bytes} {found : Nat} {tag : Tag} (here : search text = some (found, tag)) (state : σ)
include here

theorem turn_eq (turns : Nat) : engine.procResourceJProcessor (turns + 1) (front ++ text) front.length state =
    (removed (front ++ text) (toInt (front.length + found)) (toInt tag.length)).elim
        ⟨.outOfRange, front ++ text, (engine.replacedBy tag state).2, []⟩ fun bytes =>
      let pos := (toInt (front.length + found)).toNat
      let processed := engine.procResourceJProcessor turns
        ((front ++ text).take pos ++ (engine.replacedBy tag state).1 ++ (front ++ text).drop (pos + bytes.length))
        (pos + (engine.replacedBy tag state).1.length) (engine.replacedBy tag state).2
      { processed with edits := ⟨pos, bytes, (engine.replacedBy tag state).1⟩ :: processed.edits } := by
  simp only [procResourceJProcessor, List.drop_left, here]

/-- The tag goes, its value comes, and the scan goes on behind it. -/
theorem turn_fits (fits : front.length + found < 2 ^ 31)
    (short : tag.length < 2 ^ 31 ∨ 2 ^ 31 ≤ tag.length % 2 ^ 32 ∧ text.drop (found + tag.length) = []) (turns : Nat) :
    let value := (engine.replacedBy tag state).1
    let front' := front ++ text.take found ++ value
    let processed := engine.procResourceJProcessor turns (front' ++ text.drop (found + tag.length)) front'.length
      (engine.replacedBy tag state).2
    engine.procResourceJProcessor (turns + 1) (front ++ text) front.length state =
      { processed with
        edits := ⟨front.length + found, (text.drop found).take tag.length, value⟩ :: processed.edits } := by
  have bounds := search_length here
  have whole : (front ++ text).length = front.length + text.length := List.length_append
  have inside : front.length + found + tag.length ≤ (front ++ text).length := by omega
  have ends : tag.length < 2 ^ 31 ∨ 2 ^ 31 ≤ tag.length % 2 ^ 32 ∧
      front.length + found + tag.length = (front ++ text).length := by
    rcases short with small | large
    · exact .inl small
    · have last := List.drop_eq_nil_iff.mp large.2
      exact .inr ⟨large.1, by omega⟩
  have taken := removed_fits inside fits ends
  have cut : (front ++ text).drop (front.length + found) = text.drop found := by
    rw [← List.drop_drop, List.drop_left' rfl]
  have length : ((text.drop found).take tag.length).length = tag.length := by
    rw [List.length_take, List.length_drop]
    omega
  have kept : (front ++ text).take (front.length + found) = front ++ text.take found := List.take_length_add_append _
  have rest : (front ++ text).drop (front.length + found + tag.length) = text.drop (found + tag.length) := by
    rw [← List.drop_drop, cut, List.drop_drop]
  have position : (toInt (front.length + found)).toNat = front.length + found := by
    rw [toInt_small fits, Int.toNat_natCast]
  have before : (front ++ text.take found ++ (engine.replacedBy tag state).1).length =
      front.length + found + (engine.replacedBy tag state).1.length := by
    rw [List.length_append, List.length_append, List.length_take]
    omega
  dsimp only
  rw [turn_eq engine here, taken, before, Option.elim_some]
  dsimp only
  rw [position, kept, cut, length, rest]

/-- Where a number does not fit, the first edit is another one, or there is none. -/
theorem turn_fails (unfit : ¬(front.length + found < 2 ^ 31 ∧
      (tag.length < 2 ^ 31 ∨ 2 ^ 31 ≤ tag.length % 2 ^ 32 ∧ text.drop (found + tag.length) = [])))
    (turns : Nat) {processed : Processed σ} (done : processed.ending = .done) {value : Bytes} {later : List Edit}
    (edits : processed.edits = ⟨front.length + found, (text.drop found).take tag.length, value⟩ :: later) :
    engine.procResourceJProcessor turns (front ++ text) front.length state ≠ processed := by
  intro same
  have bounds := search_length here
  cases turns with
  | zero =>
    rw [← same] at done
    cases done
  | succ turns =>
    rw [turn_eq engine here] at same
    cases taken : removed (front ++ text) (toInt (front.length + found)) (toInt tag.length) with
    | none =>
      rw [taken, Option.elim_none] at same
      rw [← same] at done
      cases done
    | some bytes =>
      rw [taken, Option.elim_some] at same
      dsimp only at same
      rw [← same] at edits
      have edit := (List.cons.inj edits).1
      have position := congrArg Edit.pos edit
      have gone := congrArg Edit.removed edit
      dsimp only at position gone
      have fits : front.length + found < 2 ^ 31 := by
        by_contra large
        exact toInt_ne (Nat.not_lt.mp large) position
      have large : 2 ^ 31 ≤ tag.length := by
        by_contra small
        exact unfit ⟨fits, .inl (Nat.not_le.mp small)⟩
      have whole : (front ++ text).length = front.length + text.length := List.length_append
      have behind : ¬(2 ^ 31 ≤ tag.length % 2 ^ 32 ∧ front.length + found + tag.length = (front ++ text).length) := by
        intro both
        apply unfit
        refine ⟨fits, .inr ⟨both.1, ?_⟩⟩
        rw [List.drop_eq_nil_iff]
        omega
      apply removed_other (by omega) fits large behind
      rw [taken, gone, ← List.drop_drop, List.drop_left' rfl]

end turn

/-- What stands before the text that is still to be scanned. -/
def Processed.behind (front : Bytes) (processed : Processed σ) : Processed σ :=
  { processed with input := front ++ processed.input }

theorem behind_iff (processed later : Processed σ) (front middle : Bytes) (edit : Edit) :
    ({ processed with edits := edit :: processed.edits } : Processed σ) =
        Processed.behind front { later with input := middle ++ later.input, edits := edit :: later.edits } ↔
      processed = Processed.behind (front ++ middle) later := by
  obtain ⟨ending, input, state, edits⟩ := processed
  simp only [Processed.behind, Processed.mk.injEq, List.cons.injEq, true_and, List.append_assoc]

/-- From any position on, by the pieces that are left. -/
theorem runs_iff (text front : Bytes) (state : σ) :
    (∃ turns, engine.procResourceJProcessor turns (front ++ text) front.length state =
        Processed.behind front (engine.onePass front.length (pieces text).1 (pieces text).2 state)) ↔
      ∀ place ∈ engine.places front.length (pieces text).1 (pieces text).2 state, place.Fits := by
  induction text using pieces.induct generalizing front state with
  | case1 text none =>
    rw [pieces_none none]
    refine iff_of_true ⟨1, ?_⟩ (by simp [places])
    simp only [procResourceJProcessor, List.drop_left, none]
    rfl
  | case2 text found tag here ih =>
    have bounds := search_length here
    have length : (text.take found).length = found := by
      rw [List.length_take]
      omega
    have ends := ends_iff (text.drop (found + tag.length))
    rw [pieces_some here]
    simp only [places, onePass, length, List.forall_mem_cons]
    by_cases fits : front.length + found < 2 ^ 31 ∧
        (tag.length < 2 ^ 31 ∨ 2 ^ 31 ≤ tag.length % 2 ^ 32 ∧ text.drop (found + tag.length) = [])
    case pos =>
      have first : Place.Fits ⟨front.length + found, tag.length,
          (pieces (text.drop (found + tag.length))).1.isEmpty && (pieces (text.drop (found + tag.length))).2.isEmpty⟩ :=
        ⟨fits.1, fits.2.imp_right fun large => ⟨large.1, ends.mpr large.2⟩⟩
      have later := ih (front ++ text.take found ++ (engine.replacedBy tag state).1) (engine.replacedBy tag state).2
      have written : (front ++ text.take found ++ (engine.replacedBy tag state).1).length =
          front.length + found + (engine.replacedBy tag state).1.length := by
        rw [List.length_append, List.length_append, length]
      rw [and_iff_right first, ← written, ← later]
      have turn (turns : Nat) := behind_iff (engine.procResourceJProcessor turns
          (front ++ text.take found ++ (engine.replacedBy tag state).1 ++ text.drop (found + tag.length))
          (front ++ text.take found ++ (engine.replacedBy tag state).1).length (engine.replacedBy tag state).2)
        (engine.onePass (front ++ text.take found ++ (engine.replacedBy tag state).1).length
          (pieces (text.drop (found + tag.length))).1 (pieces (text.drop (found + tag.length))).2
          (engine.replacedBy tag state).2) front (text.take found ++ (engine.replacedBy tag state).1)
        ⟨front.length + found, (text.drop found).take tag.length, (engine.replacedBy tag state).1⟩
      rw [← List.append_assoc] at turn
      constructor
      · intro runs
        obtain ⟨turns, same⟩ := runs
        cases turns with
        | zero =>
          have done := congrArg Processed.ending same
          change Ending.expired = (engine.onePass _ _ _ _).ending at done
          rw [onePass_done] at done
          cases done
        | succ turns =>
          rw [turn_fits engine here state fits.1 fits.2] at same
          exact ⟨turns, (turn turns).mp same⟩
      · intro runs
        obtain ⟨turns, same⟩ := runs
        refine ⟨turns + 1, ?_⟩
        rw [turn_fits engine here state fits.1 fits.2]
        exact (turn turns).mpr same
    case neg =>
      have unfit : ¬Place.Fits ⟨front.length + found, tag.length,
          (pieces (text.drop (found + tag.length))).1.isEmpty && (pieces (text.drop (found + tag.length))).2.isEmpty⟩ :=
        fun first => fits ⟨first.1, first.2.imp_right fun large => ⟨large.1, ends.mp large.2⟩⟩
      refine iff_of_false (fun runs => ?_) fun both => unfit both.1
      obtain ⟨turns, same⟩ := runs
      refine turn_fails engine here state fits turns ?_ rfl same
      exact engine.onePass_done _ _ _ _

end

theorem single_pass {σ : Type} (engine : HTMLIEngine σ) (input : Bytes) (state : σ) :
    engine.SinglePass input state ↔ engine.Spared input state := by
  have whole : Processed.behind [] (engine.onePass 0 (pieces input).1 (pieces input).2 state) =
      engine.onePass 0 (pieces input).1 (pieces input).2 state := rfl
  have runs := engine.runs_iff input [] state
  rw [List.length_nil, List.nil_append, whole] at runs
  exact runs

/-- A page is its pieces, and the loop is one pass over them exactly where each tag stands below 2 GiB in its turn. -/
theorem single_pass_iff {σ : Type} (engine : HTMLIEngine σ) (input : Bytes) (state : σ) :
    (pieces input).1.flatMap (fun piece => piece.before ++ piece.bytes) ++ (pieces input).2 = input ∧
      (engine.SinglePass input state ↔ engine.Spared input state) :=
  ⟨pieces_text input, engine.single_pass input state⟩

/-- A value that looks like a tag stays in the page. -/
example : (procResourceJProcessor ⟨fun _ _ _ => (ascii "<%jVAR/b:c%>", ()), fun _ _ _ => ([], ()), fun _ _ _ => ([], ()),
    fun _ _ _ => ([], ()), fun _ _ _ => ([], ())⟩ 3 (ascii "x<%JVAR/a: b %>y<%jOTHER:%>") 0 ()).input =
      ascii "x<%jVAR/b:c%>ynull" := by
  decide +kernel

/-! ## A late tag -/

/-- No value but null. -/
def silent : HTMLIEngine Unit :=
  ⟨fun _ _ _ => (ascii "null", ()), fun _ _ _ => (ascii "null", ()), fun _ _ _ => (ascii "null", ()),
    fun _ _ _ => (ascii "null", ()), fun _ _ _ => (ascii "null", ())⟩

def sampleTag : Bytes := ascii "<%jVAR/a:b%>"

theorem search_replicate (count : Nat) (text : Bytes) :
    search (List.replicate count 120 ++ text) = (search text).map fun (found, tag) => (found + count, tag) := by
  induction count with
  | zero => exact Option.map_id.symm ▸ rfl
  | succ count ih =>
    have other : ∀ rest, tagAt (120 :: rest) = none := fun rest => if_neg (by simp [ascii])
    rw [List.replicate_succ, List.cons_append, search, other, ih, Option.map_map]
    rfl

theorem late_tag {count : Nat} (large : 2 ^ 31 ≤ count) : ¬silent.SinglePass (List.replicate count 120 ++ sampleTag) () := by
  have found : search sampleTag = some (0, ⟨ascii "VAR/a", ascii "b", 12⟩) := by decide +kernel
  have here : search (List.replicate count 120 ++ sampleTag) = some (0 + count, ⟨ascii "VAR/a", ascii "b", 12⟩) := by
    rw [search_replicate, found]
    rfl
  rw [single_pass, Spared, pieces_some here]
  intro spared
  have fits := spared _ (.head _)
  have position : ((List.replicate count 120 ++ sampleTag).take (0 + count)).length = count := by
    rw [List.length_take, List.length_append, List.length_replicate]
    omega
  have small := fits.1
  simp only [position] at small
  omega

/-- The position of the tag is below zero in a variable of the type `int`. -/
theorem not_single_pass : ¬silent.SinglePass (List.replicate (2 ^ 31) 120 ++ sampleTag) () := late_tag (Nat.le_refl _)

end HTMLIEngine

end Mantids.RPC.PageTags
