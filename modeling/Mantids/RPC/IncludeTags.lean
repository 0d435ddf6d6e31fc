import Mantids.Library.Expansion
import Mantids.Library.Replacement
import Mantids.Library.Splitting
import Mantids.Protocols.SecurityHeaders

/-! The include tags of a page (`procResource_HTMLIEngineInclude` of `webclienthandler.cpp`), each replaced by a text
that is scanned again. -/

set_option autoImplicit false

namespace Mantids.RPC.IncludeTags

open Library Memory MIME HTTP

/-! ## The regular expression -/

/-- The groups of a match. -/
structure Tag where
  fulltag : Bytes
  tag : Bytes
  includePath : Bytes
  deriving DecidableEq

/-- How much of the front is a match of `<\%?[iI][nN][cC][lL][uU][dD][eE]`. -/
def openingAt (text : Bytes) : Option Nat :=
  if ascii "<INCLUDE" <+: toUpper text then some 8
  else if ascii "<%INCLUDE" <+: toUpper text then some 9
  else none

/-- The blanks before the path are not of it, but the path has at least one byte. -/
def pathOf (value : Bytes) : Bytes :=
  if value.dropWhile (· = 32) = [] then [32] else value.dropWhile (· = 32)

/-- A match of `…([^\:]*):[ ]*([^\%]+)[ ]*\%>` at the front of the text: the first group ends at the first colon,
and the path at the first `%` behind it. -/
def tagAt (text : Bytes) : Option Tag :=
  (openingAt text).bind fun opening =>
    let tag := (text.drop opening).takeWhile (· ≠ 58)
    match (text.drop opening).dropWhile (· ≠ 58) with
    | [] => none
    | _ :: body =>
      let value := body.takeWhile (· ≠ 37)
      if value ≠ [] ∧ ascii "%>" <+: body.dropWhile (· ≠ 37) then
        some ⟨text.take (opening + tag.length + 1 + value.length + 2), tag, pathOf value⟩
      else none

/-- The leftmost match. -/
def search : Bytes → Option Tag
  | [] => none
  | byte :: rest => (tagAt (byte :: rest)).or (search rest)

/-! ## The loop -/

/-- What can be included: the files that can be opened, by their path, and the static elements, by their name. -/
structure Resources where
  resourcesLocalPath : Bytes
  files : Bytes → Option Bytes
  staticContentElements : Bytes → Option Bytes

/-- The content within an element of the tag's name, if the name begins with a slash. -/
def element (tag content : Bytes) : Bytes :=
  if tag ≠ [] ∧ 1 < tag.length ∧ tag.head? = some 47 then
    ascii "<" ++ tag.drop 1 ++ ascii ">" ++ content ++ ascii "</" ++ tag.drop 1 ++ ascii ">"
  else content

namespace Resources

variable (resources : Resources)

def content (includePath : Bytes) : Option Bytes :=
  (resources.files (resources.resourcesLocalPath ++ includePath)).or (resources.staticContentElements includePath)

def replacement (found : Tag) : Bytes :=
  match resources.content found.includePath with
  | some content => element found.tag content
  | none => ascii "<!-- HTMLI ENGINE ERROR (FILE NOT FOUND): " ++ found.includePath ++ ascii " -->"

end Resources

/-! ## The tags of a text -/

/-- The matches from the left; `skip` bytes are still of the one before. -/
def tagsFrom : (skip : Nat) → Bytes → List Tag
  | _, [] => []
  | skip + 1, _ :: rest => tagsFrom skip rest
  | 0, byte :: rest =>
    match tagAt (byte :: rest) with
    | some found => found :: tagsFrom (found.fulltag.length - 1) rest
    | none => tagsFrom 0 rest

def tags (text : Bytes) : List Tag := tagsFrom 0 text

/-- A text includes another: one of its tags names it. -/
def Resources.Includes (resources : Resources) (text content : Bytes) : Prop :=
  ∃ found ∈ tags text, resources.content found.includePath = some content

/-- No opening begins in these bytes, however the text goes on. -/
def Plain (run : Bytes) : Prop := ∀ rest, ∀ i < run.length, openingAt ((run ++ rest).drop i) = none

/-- A tag with no opening but its own, that stays what it is between other bytes, and whose name makes none. -/
structure Tag.Closed (found : Tag) : Prop where
  whole : tagAt found.fulltag = some found
  inside : Plain found.fulltag.tail
  named : 1 < found.tag.length → found.tag.head? = some 47 → Plain (ascii "<" ++ found.tag.drop 1 ++ ascii ">")

/-- A text is plain bytes and closed tags. -/
inductive Orderly : Bytes → Prop where
  | nil : Orderly []
  | plain {run rest} (plain : Plain run) (later : Orderly rest) : Orderly (run ++ rest)
  | tag {found rest} (closed : Tag.Closed found) (later : Orderly rest) : Orderly (found.fulltag ++ rest)

/-! ## One match -/

/-- The bytes of an opening. -/
def IsOpening (opening : Bytes) : Prop := toUpper opening = ascii "<INCLUDE" ∨ toUpper opening = ascii "<%INCLUDE"

instance (opening : Bytes) : Decidable (IsOpening opening) := inferInstanceAs (Decidable (_ ∨ _))

theorem prefix_toUpper {pattern text : Bytes} :
    pattern <+: toUpper text ↔ ∃ opening rest, text = opening ++ rest ∧ toUpper opening = pattern := by
  constructor
  · intro here
    obtain ⟨rest, whole⟩ := here
    obtain ⟨opening, behind, rfl, upper, -⟩ := List.map_eq_append_iff.mp whole.symm
    exact ⟨opening, behind, rfl, upper⟩
  · intro parts
    obtain ⟨opening, rest, rfl, rfl⟩ := parts
    rw [toUpper, toUpper, List.map_append]
    exact List.prefix_append _ _

theorem openingAt_append {opening : Bytes} (is : IsOpening opening) (rest : Bytes) :
    openingAt (opening ++ rest) = some opening.length := by
  have whole : toUpper (opening ++ rest) = toUpper opening ++ toUpper rest := List.map_append
  have length : (toUpper opening).length = opening.length := List.length_map _
  rw [openingAt, whole, ← length]
  rcases is with short | long
  · rw [short, if_pos (List.prefix_append _ _)]
    rfl
  · rw [long, if_neg, if_pos (List.prefix_append _ _)]
    · rfl
    · -- the second byte is a percent sign
      intro both
      have second := List.IsPrefix.getElem both (i := 1) (by decide)
      revert second
      rw [List.getElem_append_left (by decide)]
      decide

theorem openingAt_eq_some_iff {text : Bytes} {n : Nat} :
    openingAt text = some n ↔ ∃ opening rest, IsOpening opening ∧ opening.length = n ∧ text = opening ++ rest := by
  constructor
  · intro here
    rw [openingAt] at here
    split at here
    case isTrue front =>
      cases here
      obtain ⟨opening, rest, rfl, upper⟩ := prefix_toUpper.mp front
      refine ⟨opening, rest, .inl upper, ?_, rfl⟩
      have length := congrArg List.length upper
      rwa [toUpper, List.length_map] at length
    case isFalse =>
      split at here
      case isTrue front =>
        cases here
        obtain ⟨opening, rest, rfl, upper⟩ := prefix_toUpper.mp front
        refine ⟨opening, rest, .inr upper, ?_, rfl⟩
        have length := congrArg List.length upper
        rwa [toUpper, List.length_map] at length
      case isFalse => cases here
  · intro parts
    obtain ⟨opening, rest, is, rfl, rfl⟩ := parts
    exact openingAt_append is rest

/-- The bytes of a tag and its groups. -/
inductive Written : Tag → Prop where
  | tag {opening tag value} (is : IsOpening opening) (name : 58 ∉ tag) (some : value ≠ []) (path : 37 ∉ value) :
    Written ⟨opening ++ tag ++ 58 :: value ++ ascii "%>", tag, pathOf value⟩

/-- What is behind a tag does not change it. -/
theorem tagAt_append {found : Tag} (written : Written found) (rest : Bytes) :
    tagAt (found.fulltag ++ rest) = some found := by
  cases written with
  | tag is name some path =>
    rename_i opening tag value
    have whole : opening ++ tag ++ 58 :: value ++ ascii "%>" ++ rest =
        opening ++ (tag ++ 58 :: (value ++ (ascii "%>" ++ rest))) := by
      simp only [List.append_assoc, List.cons_append]
    have front : (value ++ (ascii "%>" ++ rest)).takeWhile (· ≠ 37) = value := takeWhile_ne path (62 :: rest)
    have last : (value ++ (ascii "%>" ++ rest)).dropWhile (· ≠ 37) = ascii "%>" ++ rest :=
      dropWhile_ne path (62 :: rest)
    have length : opening.length + tag.length + 1 + value.length + 2 =
        (opening ++ tag ++ 58 :: value ++ ascii "%>").length := by
      simp only [List.length_append, List.length_cons]
      change _ = _ + 2
      omega
    have cut : (opening ++ (tag ++ 58 :: (value ++ (ascii "%>" ++ rest)))).take
        (opening.length + tag.length + 1 + value.length + 2) = opening ++ tag ++ 58 :: value ++ ascii "%>" := by
      rw [← whole, length, List.take_left' rfl]
    rw [whole, tagAt, openingAt_append is, Option.bind_some, List.drop_left' rfl]
    dsimp only
    rw [takeWhile_ne name, dropWhile_ne name]
    dsimp only
    rw [front, last, if_pos ⟨some, List.prefix_append _ _⟩, cut]

theorem written_of_tagAt {text : Bytes} {found : Tag} (here : tagAt text = some found) :
    Written found ∧ found.fulltag <+: text := by
  obtain ⟨n, opens, body⟩ := Option.bind_eq_some_iff.mp here
  obtain ⟨opening, rest, is, rfl, rfl⟩ := openingAt_eq_some_iff.mp opens
  rw [List.drop_left' rfl] at body
  dsimp only at body
  obtain ⟨name, first⟩ := split_at_first 58 rest
  have colon := List.head?_dropWhile_not (· ≠ 58) rest
  cases behind : rest.dropWhile (· ≠ 58) with
  | nil =>
    rw [behind] at body
    cases body
  | cons byte after =>
    rw [behind] at body colon first
    have colon : byte = 58 := by simpa using colon
    subst colon
    dsimp only at body
    obtain ⟨path, second⟩ := split_at_first 37 after
    split at body
    case isFalse => cases body
    case isTrue both =>
      obtain ⟨last, ends⟩ := both.2
      have written : Written _ := .tag is name both.1 path
      have whole : opening ++ rest = opening ++ rest.takeWhile (· ≠ 58) ++ 58 :: after.takeWhile (· ≠ 37) ++
          ascii "%>" ++ last := by
        calc opening ++ rest
          _ = opening ++ (rest.takeWhile (· ≠ 58) ++ 58 :: after) := by rw [← first]
          _ = opening ++ (rest.takeWhile (· ≠ 58) ++ 58 :: (after.takeWhile (· ≠ 37) ++ (ascii "%>" ++ last))) := by
            rw [ends, ← second]
          _ = _ := by simp only [List.append_assoc, List.cons_append]
      have again := tagAt_append written last
      rw [← whole, here] at again
      cases again
      refine ⟨written, ?_⟩
      rw [whole]
      exact List.prefix_append _ _

theorem tagAt_eq_some_iff {text : Bytes} {found : Tag} :
    tagAt text = some found ↔ Written found ∧ found.fulltag <+: text := by
  constructor
  · exact written_of_tagAt
  · intro both
    obtain ⟨written, rest, rfl⟩ := both
    exact tagAt_append written rest

section
variable {run : Bytes}

theorem tagAt_of_openingAt {text : Bytes} (plain : openingAt text = none) : tagAt text = none := by
  rw [tagAt, plain, Option.bind_none]

theorem plain_nil : Plain [] := fun _ i less => absurd less (Nat.not_lt_zero i)

theorem plain_cons {byte : UInt8} (first : ∀ rest, openingAt (byte :: run ++ rest) = none) (plain : Plain run) :
    Plain (byte :: run) := by
  intro rest i less
  cases i with
  | zero => exact first rest
  | succ i => exact plain rest i (Nat.lt_of_succ_lt_succ less)

theorem Plain.tail {byte : UInt8} (plain : Plain (byte :: run)) : Plain run :=
  fun rest i less => plain rest (i + 1) (Nat.succ_lt_succ less)

theorem Plain.head {byte : UInt8} (plain : Plain (byte :: run)) (rest : Bytes) :
    openingAt (byte :: (run ++ rest)) = none := plain rest 0 (Nat.zero_lt_succ _)

theorem Plain.append {back : Bytes} (front : Plain run) (behind : Plain back) : Plain (run ++ back) := by
  induction run with
  | nil => exact behind
  | cons byte run ih =>
    apply plain_cons
    case first =>
      intro rest
      have first := front.head (back ++ rest)
      rwa [← List.append_assoc] at first
    case plain => exact ih front.tail

theorem IsOpening.exists_cons {opening : Bytes} (is : IsOpening opening) :
    ∃ second rest, opening = 60 :: second :: rest ∧ second ∈ [37, 73, 105] := by
  have upper : ∃ letter more, toUpper opening = 60 :: letter :: more ∧ letter ∈ [37, 73] := by
    rcases is with short | long
    · exact ⟨73, _, short.trans rfl, by decide⟩
    · exact ⟨37, _, long.trans rfl, by decide⟩
  obtain ⟨letter, more, same, member⟩ := upper
  obtain ⟨byte, behind, rfl, first, later⟩ := List.map_eq_cons_iff.mp same
  obtain ⟨second, rest, rfl, next, -⟩ := List.map_eq_cons_iff.mp later
  have sign : ∀ byte : UInt8, (if 97 ≤ byte && byte ≤ 122 then byte - 32 else byte) = 60 → byte = 60 := by
    decide +kernel
  have letters : ∀ byte : UInt8, (if 97 ≤ byte && byte ≤ 122 then byte - 32 else byte) ∈ [37, 73] →
      byte ∈ [37, 73, 105] := by
    decide +kernel
  refine ⟨second, rest, ?_, letters second (next ▸ member)⟩
  rw [sign byte first]

theorem openingAt_of_ne {byte : UInt8} (other : byte ≠ 60) (rest : Bytes) : openingAt (byte :: rest) = none := by
  cases here : openingAt (byte :: rest) with
  | none => rfl
  | some n =>
    obtain ⟨opening, behind, is, -, whole⟩ := openingAt_eq_some_iff.mp here
    obtain ⟨second, later, rfl, -⟩ := is.exists_cons
    exact absurd (List.cons.inj whole).1 other

theorem openingAt_of_second {second : UInt8} (other : second ∉ [37, 73, 105]) (rest : Bytes) :
    openingAt (60 :: second :: rest) = none := by
  cases here : openingAt (60 :: second :: rest) with
  | none => rfl
  | some n =>
    obtain ⟨opening, behind, is, -, whole⟩ := openingAt_eq_some_iff.mp here
    obtain ⟨letter, later, rfl, member⟩ := is.exists_cons
    have same := (List.cons.inj (List.cons.inj whole).2).1
    exact absurd (same ▸ member) other

/-- Bytes without a `<`. -/
theorem plain_of_notMem (absent : 60 ∉ run) : Plain run := by
  induction run with
  | nil => exact plain_nil
  | cons byte run ih =>
    rw [List.mem_cons, not_or] at absent
    exact plain_cons (fun rest => openingAt_of_ne (Ne.symm absent.1) _) (ih absent.2)

end

/-- What is behind the bytes may be replaced, if no opening goes on with it. -/
theorem Plain.broken {run behind after : Bytes} {byte : UInt8} (plain : Plain (run ++ behind))
    (never : ∀ opening, IsOpening opening → byte ∉ opening) (later : Plain (byte :: after)) :
    Plain (run ++ byte :: after) := by
  induction run with
  | nil => exact later
  | cons first run ih =>
    apply plain_cons
    case plain => exact ih plain.tail
    case first =>
      intro rest
      cases here : openingAt (first :: (run ++ byte :: after) ++ rest) with
      | none => rfl
      | some n =>
        obtain ⟨opening, last, is, -, whole⟩ := openingAt_eq_some_iff.mp here
        have start : opening <+: first :: run ++ byte :: (after ++ rest) := by
          refine ⟨last, ?_⟩
          rw [← whole]
          simp only [List.append_assoc, List.cons_append]
        obtain ⟨more, within⟩ := prefix_of_notMem (never opening is) start
        have opens := openingAt_append is (more ++ behind)
        have whole' : Plain (first :: (run ++ behind)) := plain
        have closed := whole'.head []
        rw [List.append_nil] at closed
        rw [← List.append_assoc, within, List.cons_append, closed] at opens
        cases opens

theorem Plain.of_append {front run : Bytes} (plain : Plain (front ++ run)) : Plain run := by
  induction front with
  | nil => exact plain
  | cons byte front ih => exact ih plain.tail

/-! ## The tags of an orderly text -/

section
variable {found : Tag}

theorem Tag.Closed.written (closed : found.Closed) : Written found := (written_of_tagAt closed.whole).1

theorem Written.exists_cons (written : Written found) : ∃ rest, found.fulltag = 60 :: rest := by
  cases written with
  | tag is name some path =>
    obtain ⟨second, rest, rfl, -⟩ := is.exists_cons
    exact ⟨_, rfl⟩

theorem tagsFrom_eq (skip : Nat) (text : Bytes) : tagsFrom skip text = tags (text.drop skip) := by
  induction skip generalizing text with
  | zero => rfl
  | succ skip ih =>
    cases text with
    | nil => rfl
    | cons byte rest => exact ih rest

theorem tags_plain {run : Bytes} (plain : Plain run) (rest : Bytes) : tags (run ++ rest) = tags rest := by
  induction run with
  | nil => rfl
  | cons byte run ih =>
    rw [List.cons_append, tags, tagsFrom, tagAt_of_openingAt (plain.head rest)]
    exact ih plain.tail

theorem tags_fulltag (written : Written found) (rest : Bytes) :
    tags (found.fulltag ++ rest) = found :: tags rest := by
  obtain ⟨behind, whole⟩ := written.exists_cons
  have here := tagAt_append written rest
  rw [whole] at here ⊢
  rw [List.cons_append] at here ⊢
  rw [tags, tagsFrom, here]
  dsimp only
  rw [tagsFrom_eq, whole, List.length_cons, Nat.add_sub_cancel, List.drop_left]

theorem search_eq_head? (text : Bytes) : search text = (tags text).head? := by
  induction text with
  | nil => rfl
  | cons byte rest ih =>
    rw [search, tags, tagsFrom]
    cases tagAt (byte :: rest) with
    | none => exact ih
    | some found => rfl

variable {text : Bytes} (orderly : Orderly text)
include orderly

theorem Orderly.tags_append (rest : Bytes) : tags (text ++ rest) = tags text ++ tags rest := by
  induction orderly with
  | nil => rfl
  | plain plain later ih => rw [List.append_assoc, tags_plain plain, tags_plain plain, ih]
  | tag closed later ih =>
    rw [List.append_assoc, tags_fulltag closed.written, tags_fulltag closed.written, ih, List.cons_append]

theorem Orderly.append {rest : Bytes} (behind : Orderly rest) : Orderly (text ++ rest) := by
  induction orderly with
  | nil => exact behind
  | plain plain later ih =>
    rw [List.append_assoc]
    exact .plain plain ih
  | tag closed later ih =>
    rw [List.append_assoc]
    exact .tag closed ih

theorem Orderly.closed : ∀ found ∈ tags text, found.Closed := by
  induction orderly with
  | nil => exact fun found member => absurd member List.not_mem_nil
  | plain plain later ih =>
    rw [tags_plain plain]
    exact ih
  | tag closed later ih =>
    rw [tags_fulltag closed.written, List.forall_mem_cons]
    exact ⟨closed, ih⟩

end

theorem orderly_of_plain {run : Bytes} (plain : Plain run) : Orderly run := by
  rw [← List.append_nil run]
  exact .plain plain .nil

theorem tags_of_plain {run : Bytes} (plain : Plain run) : tags run = [] := by
  rw [← List.append_nil run, tags_plain plain]
  rfl

/-! ## A tag replaced -/

section
variable {found : Tag} (written : Written found) {replacement : Bytes}
include written

theorem not_prefix_of_openingAt {text : Bytes} (plain : openingAt text = none) : ¬found.fulltag <+: text := by
  intro here
  have begins := tagAt_eq_some_iff.mpr ⟨written, here⟩
  rw [tagAt_of_openingAt plain] at begins
  cases begins

theorem replaceAll_plain {run : Bytes} (plain : Plain run) (rest : Bytes) :
    replaceAll found.fulltag replacement (run ++ rest) = run ++ replaceAll found.fulltag replacement rest := by
  induction run with
  | nil => rfl
  | cons byte run ih =>
    have other := not_prefix_of_openingAt written (plain.head rest)
    rw [List.cons_append, replaceAll_other other, ih plain.tail, List.cons_append]

/-- Another tag stays. -/
theorem replaceAll_tag {other : Tag} (closed : other.Closed) (different : other ≠ found) (rest : Bytes) :
    replaceAll found.fulltag replacement (other.fulltag ++ rest) =
      other.fulltag ++ replaceAll found.fulltag replacement rest := by
  have apart : ¬found.fulltag <+: other.fulltag ++ rest := by
    intro here
    have begins := tagAt_eq_some_iff.mpr ⟨written, here⟩
    rw [tagAt_append closed.written] at begins
    exact different (Option.some.inj begins)
  obtain ⟨behind, whole⟩ := closed.written.exists_cons
  have inside : Plain behind := by
    have plain := closed.inside
    rwa [whole] at plain
  rw [whole] at apart ⊢
  rw [List.cons_append] at apart ⊢
  rw [replaceAll_other apart, replaceAll_plain written inside, List.cons_append]

/-- Between other bytes an orderly text becomes one in which the tags of the replacement stand for the tag. -/
theorem Orderly.replaceAll {text : Bytes} (orderly : Orderly text) (comes : Orderly replacement) :
    ∃ text', (∀ rest, replaceAll found.fulltag replacement (text ++ rest) =
        text' ++ replaceAll found.fulltag replacement rest) ∧
      Orderly text' ∧
      tags text' = (tags text).flatMap fun other => if other = found then tags replacement else [other] := by
  induction orderly with
  | nil => exact ⟨[], fun rest => rfl, .nil, rfl⟩
  | plain plain later ih =>
    rename_i run text
    obtain ⟨text', replaced, orderly', same⟩ := ih
    refine ⟨run ++ text', fun rest => ?_, .plain plain orderly', ?_⟩
    · rw [List.append_assoc, replaceAll_plain written plain, replaced, List.append_assoc]
    · rw [tags_plain plain, tags_plain plain, same]
  | tag closed later ih =>
    rename_i other text
    obtain ⟨text', replaced, orderly', same⟩ := ih
    by_cases equal : other = found
    · subst equal
      have some : other.fulltag ≠ [] := by
        obtain ⟨behind, whole⟩ := written.exists_cons
        exact whole ▸ List.cons_ne_nil _ _
      refine ⟨replacement ++ text', fun rest => ?_, comes.append orderly', ?_⟩
      · rw [List.append_assoc, replaceAll_occurrence some, replaced, List.append_assoc]
      · rw [comes.tags_append, tags_fulltag written, List.flatMap_cons, if_pos rfl, same]
    · refine ⟨other.fulltag ++ text', fun rest => ?_, .tag closed orderly', ?_⟩
      · rw [List.append_assoc, replaceAll_tag written closed equal, replaced, List.append_assoc]
      · rw [tags_fulltag closed.written, tags_fulltag closed.written, List.flatMap_cons, if_neg equal, same]
        rfl

end

/-! ## What stands for a tag -/

theorem pathOf_suffix {value : Bytes} (some : value ≠ []) : pathOf value <:+ value := by
  rw [pathOf]
  split
  case isFalse => exact List.dropWhile_suffix _
  case isTrue blanks =>
    -- the last of the blanks
    have last := List.dropWhile_eq_nil_iff.mp blanks _ (List.getLast_mem some)
    refine ⟨value.dropLast, ?_⟩
    rw [← of_decide_eq_true last]
    exact List.dropLast_append_getLast some

section
variable {found : Tag} (closed : found.Closed)
include closed

theorem Tag.Closed.plain_notFound :
    Plain (ascii "<!-- HTMLI ENGINE ERROR (FILE NOT FOUND): " ++ found.includePath ++ ascii " -->") := by
  have path : Plain (found.includePath ++ ascii "%>") := by
    have inside := closed.inside
    cases closed.written with
    | tag is name some unended =>
      rename_i opening tag value
      obtain ⟨second, rest, rfl, -⟩ := is.exists_cons
      obtain ⟨blanks, whole⟩ := pathOf_suffix some
      have tail : (60 :: second :: rest ++ tag ++ 58 :: value ++ ascii "%>").tail =
          (second :: rest ++ tag ++ 58 :: blanks) ++ (pathOf value ++ ascii "%>") := by
        calc (60 :: second :: rest ++ tag ++ 58 :: value ++ ascii "%>").tail
          _ = second :: rest ++ tag ++ 58 :: (blanks ++ pathOf value) ++ ascii "%>" := by
            rw [whole]
            rfl
          _ = _ := by simp only [List.append_assoc, List.cons_append]
      exact Plain.of_append (tail ▸ inside)
  have never : ∀ opening, IsOpening opening → (32 : UInt8) ∉ opening := by
    intro opening is member
    have upper : (32 : UInt8) ∈ toUpper opening := List.mem_map.mpr ⟨32, member, rfl⟩
    rcases is with short | long
    · rw [short] at upper
      revert upper
      decide
    · rw [long] at upper
      revert upper
      decide
  have front : Plain (ascii "!-- HTMLI ENGINE ERROR (FILE NOT FOUND): ") := plain_of_notMem (by decide +kernel)
  have behind : Plain (found.includePath ++ ascii " -->") := path.broken never (plain_of_notMem (by decide))
  rw [List.append_assoc]
  apply plain_cons
  case first => exact fun rest => openingAt_of_second (by decide) _
  case plain => exact front.append behind

/-- The element adds no tag. -/
theorem Tag.Closed.element {content : Bytes} (orderly : Orderly content) :
    Orderly (element found.tag content) ∧ tags (element found.tag content) = tags content := by
  rw [IncludeTags.element]
  split
  case isFalse => exact ⟨orderly, rfl⟩
  case isTrue named =>
    have opens := closed.named named.2.1 named.2.2
    have name : Plain (found.tag.drop 1 ++ ascii ">") := by
      rw [List.append_assoc] at opens
      exact opens.of_append
    have behind : Plain (47 :: (found.tag.drop 1 ++ ascii ">")) :=
      plain_cons (fun rest => openingAt_of_ne (by decide) _) name
    have ends : Plain (ascii "</" ++ found.tag.drop 1 ++ ascii ">") := by
      rw [List.append_assoc]
      exact plain_cons (fun rest => openingAt_of_second (by decide) _) behind
    have whole :
        ascii "<" ++ found.tag.drop 1 ++ ascii ">" ++ content ++ ascii "</" ++ found.tag.drop 1 ++ ascii ">" =
        (ascii "<" ++ found.tag.drop 1 ++ ascii ">") ++ (content ++ (ascii "</" ++ found.tag.drop 1 ++ ascii ">")) := by
      simp only [List.append_assoc]
    rw [whole, tags_plain opens, orderly.tags_append, tags_of_plain ends, List.append_nil]
    exact ⟨.plain opens (orderly.append (orderly_of_plain ends)), rfl⟩

end

/-- The tags that come for one. -/
def Resources.unfolded (resources : Resources) (found : Tag) : List Tag :=
  (resources.content found.includePath).elim [] tags

theorem replacement_orderly {resources : Resources} {found : Tag} (closed : found.Closed)
    (orderly : ∀ content, resources.content found.includePath = some content → Orderly content) :
    Orderly (resources.replacement found) ∧ tags (resources.replacement found) = resources.unfolded found := by
  rw [Resources.replacement, Resources.unfolded]
  cases here : resources.content found.includePath with
  | none => exact ⟨orderly_of_plain closed.plain_notFound, tags_of_plain closed.plain_notFound⟩
  | some content => exact closed.element (orderly content here)

/-! ## How many tags are replaced -/

section
variable {resources : Resources}

variable (resources) in
/-- Every text that is included, by others or not, is orderly. -/
def Sound (page : Bytes) : Prop := ∀ text, Relation.ReflTransGen resources.Includes page text → Orderly text

/-- One turn: the text stays orderly, and its tags are those of before with the ones that come for the first. -/
theorem Sound.turn {page : Bytes} {found : Tag} (sound : Sound resources page) (first : search page = some found) :
    let next := replaceAll found.fulltag (resources.replacement found) page
    found ∈ tags page ∧ Sound resources next ∧
      tags next = (tags page).flatMap fun other => if other = found then resources.unfolded found else [other] := by
  have orderly := sound page .refl
  rw [search_eq_head?] at first
  have member := List.mem_of_head? first
  have closed := orderly.closed found member
  obtain ⟨comes, unfolded⟩ := replacement_orderly closed fun content here =>
    sound content (.single ⟨found, member, here⟩)
  obtain ⟨text', replaced, orderly', same⟩ := orderly.replaceAll closed.written comes
  have whole : replaceAll found.fulltag (resources.replacement found) page = text' := by
    have last := replaced []
    rwa [List.append_nil, show replaceAll found.fulltag (resources.replacement found) [] = [] from rfl,
      List.append_nil] at last
  dsimp only
  rw [whole, same, unfolded]
  refine ⟨member, ?_, rfl⟩
  intro text reached
  rcases reached.cases_head with rfl | ⟨content, includes, later⟩
  · exact orderly'
  · obtain ⟨other, among, here⟩ := includes
    rw [same, unfolded, List.mem_flatMap] at among
    obtain ⟨origin, given, among⟩ := among
    split at among
    case isFalse =>
      rw [List.mem_singleton] at among
      subst among
      exact sound text (.head ⟨other, given, here⟩ later)
    case isTrue =>
      -- a tag of the content that came
      rw [Resources.unfolded] at among
      cases middle : resources.content found.includePath with
      | none =>
        rw [middle] at among
        cases among
      | some between =>
        rw [middle] at among
        exact sound text (.head ⟨found, member, middle⟩ (.head ⟨other, among, here⟩ later))

end

/-- There are finitely many texts to include, so that a chain is endless where a text includes itself. -/
theorem acc_iff_acyclic {resources : Resources} {page : Bytes}
    (finite : {content | ∃ includePath, resources.content includePath = some content}.Finite) :
    Acc (fun content text => resources.Includes text content) page ↔
      ∀ text, Relation.ReflTransGen resources.Includes page text → ¬Relation.TransGen resources.Includes text text := by
  apply acc_iff_of_finite
  apply finite.subset
  intro content included
  obtain ⟨text, found, -, here⟩ := included
  exact ⟨found.includePath, here⟩

namespace Samples

/-- A file, and a static element that has a tag for itself. -/
def resources : Resources where
  resourcesLocalPath := ascii "/www/"
  files path := if path = ascii "/www/menu.html" then some (ascii "menu") else none
  staticContentElements name := if name = ascii "loop.html" then some (ascii "<%include:loop.html%>") else none

def page : Bytes := ascii "top <%include/nav: menu.html%> end"

end Samples

end Mantids.RPC.IncludeTags
