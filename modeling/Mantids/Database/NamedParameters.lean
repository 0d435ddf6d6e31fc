import Mantids.Library.Occurrence
import Mantids.Protocols.MimeMessage

/-! Named parameters made positional (`query.cpp`): `replaceFirstKey`, called until it finds no key, against the
replacement of the longest key at each place. -/

set_option autoImplicit false

namespace Mantids.Database

open Library Memory MIME

/-- What the calls of `replaceFirstKey` change. -/
structure Replacing where
  sqlQuery : Bytes
  keysIn : List Bytes
  keysOutByPos : List Bytes
  deriving DecidableEq

/-- `std::string::find`; an empty key is found at once. -/
def find (sqlQuery key : Bytes) : Option Nat := if key = [] then some 0 else occurrence key sqlQuery

/-- The turn for one key, with `firstKeyPos` and `firstKeyFound` so far; `npos` is above every place. -/
def earliest (sqlQuery : Bytes) (first : Option (Nat × Bytes)) (key : Bytes) : Option (Nat × Bytes) :=
  match find sqlQuery key with
  | none => first
  | some pos => if first.all (fun first => pos ≤ first.1) then some (pos, key) else first

def replaceFirstKey (replaceBy : Bytes) (query : Replacing) : Bool × Replacing :=
  let first := query.keysIn.foldl (earliest query.sqlQuery) none
  let toDelete := query.keysIn.filter fun key => find query.sqlQuery key = none
  let keysIn := toDelete.foldl (fun keysIn needle => keysIn.filter (· ≠ needle)) query.keysIn
  match first with
  | some (pos, key) =>
    (true, { sqlQuery := query.sqlQuery.take pos ++ replaceBy ++ query.sqlQuery.drop (pos + key.length)
             keysIn
             keysOutByPos := query.keysOutByPos ++ [key] })
  | none => (false, { query with keysIn })

/-- The loop of `postBindInputVars`, if it ends within so many turns. -/
def replaceKeys (replaceBy : Bytes) : Nat → Replacing → Option Replacing
  | 0, _ => none
  | turns + 1, query =>
    match replaceFirstKey replaceBy query with
    | (true, query) => replaceKeys replaceBy turns query
    | (false, query) => some query

/-! ## What the replacement is for -/

section
variable (keys : List Bytes) (replaceBy : Bytes)

/-- A text, the same with the longest key replaced wherever one begins, and the keys from left to right. -/
inductive Replaced : Bytes → Bytes → List Bytes → Prop where
  | nil : Replaced [] [] []
  | key {key after text out} (member : key ∈ keys)
      (longest : ∀ other ∈ keys, other <+: key ++ after → other.length ≤ key.length)
      (later : Replaced after text out) : Replaced (key ++ after) (replaceBy ++ text) (key :: out)
  | other {c after text out} (none : ∀ key ∈ keys, ¬key <+: c :: after)
      (later : Replaced after text out) : Replaced (c :: after) (c :: text) out

/-- On the way through a text from left to right no key that still occurs in the rest begins in what the text has
become up to there. -/
inductive Orderly : Bytes → Bytes → Prop where
  | done {front rest} (absent : ∀ key ∈ keys, ¬key <:+: rest) : Orderly front rest
  | next {front before key after} (member : key ∈ keys)
      (longest : ∀ other ∈ keys, other <+: key ++ after → other.length ≤ key.length)
      (first : ∀ other ∈ keys, ∀ i < before.length, ¬other <+: (before ++ key ++ after).drop i)
      (clear : ∀ other ∈ keys, other <:+: before ++ key ++ after → ∀ i < (front ++ before ++ replaceBy).length,
        ¬other <+: (front ++ before ++ replaceBy ++ after).drop i)
      (later : Orderly (front ++ before ++ replaceBy) after) : Orderly front (before ++ key ++ after)

variable {keys replaceBy}

theorem Replaced.plain {s : Bytes} (none : ∀ key ∈ keys, ¬key <:+: s) : Replaced keys replaceBy s s [] := by
  induction s with
  | nil => exact .nil
  | cons c s ih =>
    apply Replaced.other
    case none => exact fun key member here => none key member here.isInfix
    case later =>
      apply ih
      intro key member inside
      exact none key member (List.infix_cons inside)

/-- What is before the first key stays. -/
theorem Replaced.append_left {before rest text : Bytes} {out : List Bytes}
    (first : ∀ key ∈ keys, ∀ i < before.length, ¬key <+: (before ++ rest).drop i)
    (later : Replaced keys replaceBy rest text out) :
    Replaced keys replaceBy (before ++ rest) (before ++ text) out := by
  induction before with
  | nil => exact later
  | cons c before ih =>
    apply Replaced.other
    case none => exact fun key member => first key member 0 (Nat.zero_lt_succ _)
    case later =>
      apply ih
      intro key member i less
      exact first key member (i + 1) (Nat.succ_lt_succ less)

/-- A character at which no key begins is still there. -/
theorem Replaced.starts {c : UInt8} {rest text : Bytes} {out : List Bytes}
    (none : ∀ key ∈ keys, ¬key <+: c :: rest) (replaced : Replaced keys replaceBy (c :: rest) text out) :
    text.head? = some c := by
  generalize whole : c :: rest = s at replaced
  cases replaced with
  | nil => contradiction
  | key member longest later =>
    rename_i key after text out
    exact absurd (whole ▸ List.prefix_append key after) (none key member)
  | other absent later =>
    rw [List.cons.injEq] at whole
    rw [whole.1]
    rfl

end

/-! ## One call -/

section
variable {keys : List Bytes} {s : Bytes}

theorem find_eq_some_iff {key : Bytes} (filled : key ≠ []) {i : Nat} :
    find s key = some i ↔ i < s.length ∧ key <+: s.drop i ∧ ∀ j < i, ¬key <+: s.drop j := by
  rw [find, if_neg filled]
  exact occurrence_eq_some_iff

theorem find_eq_none_iff {key : Bytes} (filled : key ≠ []) : find s key = none ↔ ¬key <:+: s := by
  rw [find, if_neg filled, occurrence_eq_none_iff]
  constructor
  · intro nowhere inside
    obtain ⟨front, back, rfl⟩ := inside
    have length := List.length_pos_of_ne_nil filled
    apply nowhere front.length
    · rw [List.length_append, List.length_append]
      omega
    · rw [List.append_assoc, List.drop_left' rfl]
      exact List.prefix_append _ _
  · intro absent i less here
    exact absent (here.isInfix.trans (List.drop_suffix i s).isInfix)

theorem foldl_remove (toDelete : List Bytes) :
    toDelete.foldl (fun keysIn needle => keysIn.filter (· ≠ needle)) keys = keys.filter (· ∉ toDelete) := by
  induction toDelete generalizing keys with
  | nil => simp
  | cons needle toDelete ih =>
    rw [List.foldl_cons, ih, List.filter_filter]
    apply List.filter_congr
    intro key _
    simp [Bool.and_comm]

/-- The keys that a call leaves. -/
theorem foldl_toDelete :
    (keys.filter fun key => find s key = none).foldl (fun keysIn needle => keysIn.filter (· ≠ needle)) keys =
      keys.filter fun key => find s key ≠ none := by
  rw [foldl_remove]
  apply List.filter_congr
  intro key member
  simp [member]

theorem replaceFirstKey_of_none {replaceBy : Bytes} {query : Replacing}
    (first : query.keysIn.foldl (earliest query.sqlQuery) none = none) :
    replaceFirstKey replaceBy query =
      (false, { query with keysIn := query.keysIn.filter fun key => find query.sqlQuery key ≠ none }) := by
  simp only [replaceFirstKey, first, foldl_toDelete]

theorem replaceFirstKey_of_some {replaceBy : Bytes} {query : Replacing} {pos : Nat} {key : Bytes}
    (first : query.keysIn.foldl (earliest query.sqlQuery) none = some (pos, key)) :
    replaceFirstKey replaceBy query =
      (true, { sqlQuery := query.sqlQuery.take pos ++ replaceBy ++ query.sqlQuery.drop (pos + key.length)
               keysIn := query.keysIn.filter fun key => find query.sqlQuery key ≠ none
               keysOutByPos := query.keysOutByPos ++ [key] }) := by
  simp only [replaceFirstKey, first, foldl_toDelete]

/-- Keys that are found nowhere. -/
theorem foldl_earliest_none (absent : ∀ key ∈ keys, find s key = none) (first : Option (Nat × Bytes)) :
    keys.foldl (earliest s) first = first := by
  induction keys with
  | nil => rfl
  | cons key keys ih =>
    have here : earliest s first key = first := by
      rw [earliest, absent key (.head _)]
    rw [List.foldl_cons, here]
    exact ih fun other member => absent other (.tail _ member)

/-- No key is found before the first. -/
theorem le_of_foldl_earliest {p : Nat} (bound : ∀ key ∈ keys, ∀ i, find s key = some i → p ≤ i)
    {first : Option (Nat × Bytes)} (start : ∀ found ∈ first, p ≤ found.1) :
    ∀ found ∈ keys.foldl (earliest s) first, p ≤ found.1 := by
  induction keys generalizing first with
  | nil => exact start
  | cons key keys ih =>
    rw [List.foldl_cons]
    apply ih
    case bound => exact fun other member => bound other (.tail _ member)
    case start =>
      intro found member
      rw [earliest] at member
      split at member
      case h_1 absent => exact start found member
      case h_2 i place =>
        split at member
        · cases member
          exact bound key (.head _) i place
        · exact start found member

/-- Of the keys at the first place the last one stays. -/
theorem foldl_earliest {p : Nat} {key : Bytes} (sorted : keys.Pairwise (· ≤ ·)) (member : key ∈ keys)
    (here : find s key = some p)
    (bound : ∀ other ∈ keys, ∀ i, find s other = some i → p ≤ i ∧ (i = p → other <+: key)) :
    keys.foldl (earliest s) none = some (p, key) := by
  obtain ⟨before, behind, rfl⟩ := List.append_of_mem member
  have later : ∀ other ∈ behind, ∀ i, find s other = some i → p < i ∨ other = key := by
    intro other inside i place
    obtain ⟨le, shorter⟩ := bound other (List.mem_append_right _ (.tail _ inside)) i place
    rcases Nat.lt_or_eq_of_le le with less | same
    · exact .inl less
    · -- a prefix of the key that does not come before it
      have above : key ≤ other := List.rel_of_pairwise_cons (List.pairwise_append.mp sorted).2.1 inside
      exact .inr (List.le_antisymm (shorter same.symm).le above)
  have stays : ∀ rest : List Bytes, (∀ other ∈ rest, ∀ i, find s other = some i → p < i ∨ other = key) →
      rest.foldl (earliest s) (some (p, key)) = some (p, key) := by
    intro rest
    induction rest with
    | nil => exact fun _ => rfl
    | cons other rest ih =>
      intro apart
      have turn : earliest s (some (p, key)) other = some (p, key) := by
        rw [earliest]
        split
        case h_1 absent => rfl
        case h_2 i place =>
          rcases apart other (.head _) i place with less | rfl
          · rw [if_neg]
            simpa using less
          · rw [here] at place
            cases place
            simp
      rw [List.foldl_cons, turn]
      exact ih fun other member => apart other (.tail _ member)
  have start : ∀ found ∈ before.foldl (earliest s) none, p ≤ found.1 := by
    apply le_of_foldl_earliest
    case bound => exact fun other inside i place => (bound other (List.mem_append_left _ inside) i place).1
    case start => simp
  have turn : earliest s (before.foldl (earliest s) none) key = some (p, key) := by
    rw [earliest, here]
    dsimp only
    rw [if_pos]
    rw [Option.all_eq_true_iff_get]
    intro found
    exact decide_eq_true (start _ (Option.get_mem found))
  rw [List.foldl_append, List.foldl_cons, turn]
  exact stays behind later

end

/-! ## Until there is no key -/

/-- The text is behind `front` as it was, with the keys that it still has among those that are looked for. -/
structure Searched (keys : List Bytes) (front rest : Bytes) (query : Replacing) : Prop where
  sqlQuery : query.sqlQuery = front ++ rest
  keysIn : query.keysIn.Sublist keys
  kept : ∀ key ∈ keys, key <:+: rest → key ∈ query.keysIn
  clear : ∀ key ∈ query.keysIn, ∀ i < front.length, ¬key <+: (front ++ rest).drop i

section
variable {keys : List Bytes} {replaceBy front rest : Bytes} {query : Replacing} (filled : ∀ key ∈ keys, key ≠ [])
include filled

theorem Searched.find_bound (searched : Searched keys front rest query) {key : Bytes} (member : key ∈ query.keysIn)
    {i : Nat} (found : find query.sqlQuery key = some i) :
    front.length ≤ i ∧ key <+: rest.drop (i - front.length) := by
  obtain ⟨less, here, -⟩ := (find_eq_some_iff (filled key (searched.keysIn.subset member))).mp found
  rw [searched.sqlQuery] at here
  have bound : front.length ≤ i := by
    by_contra before
    exact searched.clear key member i (Nat.lt_of_not_le before) here
  refine ⟨bound, ?_⟩
  rwa [List.drop_append, List.drop_eq_nil_of_le bound, List.nil_append] at here

theorem Searched.infix_of_find (searched : Searched keys front rest query) {key : Bytes} (member : key ∈ query.keysIn)
    (found : find query.sqlQuery key ≠ none) : key <:+: rest := by
  obtain ⟨i, place⟩ := Option.ne_none_iff_exists'.mp found
  exact (searched.find_bound filled member place).2.isInfix.trans (List.drop_suffix _ _).isInfix

/-- Where no key is left the loop ends. -/
theorem Searched.last (replaceBy : Bytes) (searched : Searched keys front rest query)
    (absent : ∀ key ∈ keys, ¬key <:+: rest) :
    replaceFirstKey replaceBy query =
      (false, { query with keysIn := query.keysIn.filter fun key => find query.sqlQuery key ≠ none }) := by
  apply replaceFirstKey_of_none
  apply foldl_earliest_none
  intro key member
  by_contra found
  exact absent key (searched.keysIn.subset member) (searched.infix_of_find filled member found)

variable {before key after : Bytes}

theorem Searched.next (keysOutByPos : List Bytes)
    (clear : ∀ other ∈ keys, other <:+: before ++ key ++ after → ∀ i < (front ++ before ++ replaceBy).length,
      ¬other <+: (front ++ before ++ replaceBy ++ after).drop i)
    (searched : Searched keys front (before ++ key ++ after) query) :
    Searched keys (front ++ before ++ replaceBy) after
      { sqlQuery := front ++ before ++ replaceBy ++ after
        keysIn := query.keysIn.filter fun key => find query.sqlQuery key ≠ none
        keysOutByPos } where
  sqlQuery := rfl
  keysIn := List.filter_sublist.trans searched.keysIn
  kept other given inside := by
    have whole : other <:+: before ++ key ++ after := inside.trans (List.suffix_append _ _).isInfix
    have among := searched.kept other given whole
    rw [List.mem_filter]
    refine ⟨among, decide_eq_true ?_⟩
    intro absent
    apply (find_eq_none_iff (filled other given)).mp absent
    rw [searched.sqlQuery]
    exact whole.trans (List.suffix_append _ _).isInfix
  clear other inside := by
    rw [List.mem_filter] at inside
    have whole := searched.infix_of_find filled inside.1 (of_decide_eq_true inside.2)
    exact clear other (searched.keysIn.subset inside.1) whole

variable (member : key ∈ keys)
  (longest : ∀ other ∈ keys, other <+: key ++ after → other.length ≤ key.length)
  (first : ∀ other ∈ keys, ∀ i < before.length, ¬other <+: (before ++ key ++ after).drop i)
include member longest first

/-- The first key of the rest is the one that a call finds. -/
theorem Searched.turn (replaceBy : Bytes) (sorted : keys.Pairwise (· ≤ ·))
    (searched : Searched keys front (before ++ key ++ after) query) :
    replaceFirstKey replaceBy query =
      (true, { sqlQuery := front ++ before ++ replaceBy ++ after
               keysIn := query.keysIn.filter fun key => find query.sqlQuery key ≠ none
               keysOutByPos := query.keysOutByPos ++ [key] }) := by
  have among : key ∈ query.keysIn :=
    searched.kept key member ((List.suffix_append before key).isInfix.trans (List.prefix_append _ after).isInfix)
  have begins : (front ++ (before ++ key ++ after)).drop (front.length + before.length) = key ++ after := by
    rw [List.drop_length_add_append, List.append_assoc, List.drop_left' rfl]
  have here : find query.sqlQuery key = some (front.length + before.length) := by
    apply (find_eq_some_iff (filled key member)).mpr
    rw [searched.sqlQuery]
    refine ⟨?_, ?_, ?_⟩
    · have length := List.length_pos_of_ne_nil (filled key member)
      simp only [List.length_append]
      omega
    · rw [begins]
      exact List.prefix_append _ _
    · intro j less
      by_cases old : j < front.length
      · exact searched.clear key among j old
      · rw [List.drop_append, List.drop_eq_nil_of_le (Nat.le_of_not_lt old), List.nil_append]
        exact first key member _ (by omega)
  have found : query.keysIn.foldl (earliest query.sqlQuery) none = some (front.length + before.length, key) := by
    apply foldl_earliest (sorted.sublist searched.keysIn) among here
    intro other inside i place
    have given := searched.keysIn.subset inside
    obtain ⟨bound, start⟩ := searched.find_bound filled inside place
    constructor
    · by_contra less
      exact first other given _ (by omega) start
    · -- both begin there, and the key is the longest that does
      intro same
      rw [same, Nat.add_sub_cancel_left, List.append_assoc, List.drop_left' rfl] at start
      exact List.prefix_of_prefix_length_le start (List.prefix_append _ _) (longest other given start)
  have cut : (front ++ (before ++ key ++ after)).take (front.length + before.length) = front ++ before := by
    rw [List.take_length_add_append, List.append_assoc, List.take_left' rfl]
  rw [replaceFirstKey_of_some found, searched.sqlQuery, cut, ← List.drop_drop, begins, List.drop_left' rfl]

end

/-- From every place of the text on. -/
theorem replaceKeys_of_orderly {keys : List Bytes} {replaceBy front rest : Bytes} {query : Replacing}
    (filled : ∀ key ∈ keys, key ≠ []) (sorted : keys.Pairwise (· ≤ ·)) (orderly : Orderly keys replaceBy front rest)
    (searched : Searched keys front rest query) :
    ∃ turns finished text out, replaceKeys replaceBy turns query = some finished ∧
      finished.sqlQuery = front ++ text ∧ finished.keysOutByPos = query.keysOutByPos ++ out ∧
      Replaced keys replaceBy rest text out := by
  induction orderly generalizing query with
  | done absent =>
    rename_i front rest
    have turn := searched.last filled replaceBy absent
    refine ⟨1, (replaceFirstKey replaceBy query).2, rest, [], ?_, ?_, ?_, .plain absent⟩
    · rw [replaceKeys, turn]
    · rw [turn]
      exact searched.sqlQuery
    · rw [turn, List.append_nil]
  | next member longest first clear later ih =>
    rename_i front before key after
    have turn := searched.turn filled member longest first replaceBy sorted
    obtain ⟨turns, finished, text, out, ends, sqlQuery, keysOut, replaced⟩ :=
      ih (searched.next filled (query.keysOutByPos ++ [key]) clear)
    refine ⟨turns + 1, finished, before ++ (replaceBy ++ text), key :: out, ?_, ?_, ?_, ?_⟩
    · rw [replaceKeys, turn]
      exact ends
    · rw [sqlQuery]
      simp only [List.append_assoc]
    · rw [keysOut, List.append_assoc]
      rfl
    · rw [List.append_assoc]
      apply Replaced.append_left
      case first => simpa only [List.append_assoc] using first
      case later => exact .key member longest replaced

/-! ## Keys that have no character of the replacement -/

section
variable {keys : List Bytes} {rest : Bytes}

/-- The first place at which a key begins, with the longest that does. -/
theorem exists_first {key : Bytes} (filled : ∀ key ∈ keys, key ≠ []) (member : key ∈ keys) (inside : key <:+: rest) :
    ∃ before key after, rest = before ++ key ++ after ∧ key ∈ keys ∧
      (∀ other ∈ keys, other <+: key ++ after → other.length ≤ key.length) ∧
      ∀ other ∈ keys, ∀ i < before.length, ¬other <+: (before ++ key ++ after).drop i := by
  induction rest with
  | nil => exact absurd (List.infix_nil.mp inside) (filled key member)
  | cons c rest ih =>
    by_cases here : ∃ key ∈ keys, key <+: c :: rest
    · -- the longest of those that begin here
      obtain ⟨first, among, begins⟩ := here
      have present : ∀ key, key ∈ (keys.filter fun key => key <+: c :: rest).toFinset ↔
          key ∈ keys ∧ key <+: c :: rest := by
        intro key
        rw [List.mem_toFinset, List.mem_filter, decide_eq_true_iff]
      obtain ⟨longest, chosen, above⟩ :=
        Finset.exists_max_image _ List.length ⟨first, (present first).mpr ⟨among, begins⟩⟩
      obtain ⟨given, after, whole⟩ := (present longest).mp chosen
      refine ⟨[], longest, after, whole.symm, given, ?_, ?_⟩
      · intro other given start
        rw [whole] at start
        exact above other ((present other).mpr ⟨given, start⟩)
      · exact fun other given i less => absurd less (Nat.not_lt_zero i)
    · rw [not_exists] at here
      have later : key <:+: rest := by
        rcases List.infix_cons_iff.mp inside with start | later
        · exact absurd ⟨member, start⟩ (here key)
        · exact later
      obtain ⟨before, key, after, rfl, chosen, longest, first⟩ := ih later
      refine ⟨c :: before, key, after, rfl, chosen, longest, ?_⟩
      intro other given i less
      cases i with
      | zero => exact fun start => here other ⟨given, start⟩
      | succ i => exact first other given i (Nat.lt_of_succ_lt_succ less)

/-- A key that begins before the end of a replacement ends before it. -/
theorem prefix_of_drop {key before replaceBy after : Bytes} (nonempty : replaceBy ≠ [])
    (apart : ∀ c ∈ key, c ∉ replaceBy) (filled : key ≠ []) {i : Nat} (less : i < (before ++ replaceBy).length)
    (here : key <+: (before ++ replaceBy ++ after).drop i) : i < before.length ∧ key <+: before.drop i := by
  rw [List.length_append] at less
  have length := List.length_pos_of_ne_nil filled
  have replaced := List.length_pos_of_ne_nil nonempty
  have short : i + key.length ≤ before.length := by
    by_contra beyond
    rw [Nat.not_le] at beyond
    -- a place that both have
    have within : max i before.length - i < key.length := by omega
    have inside : max i before.length - before.length < replaceBy.length := by omega
    have shared : key[max i before.length - i] = replaceBy[max i before.length - before.length] := by
      rw [List.IsPrefix.getElem here within, List.getElem_drop, List.getElem_append_left, List.getElem_append_right]
      · congr 1
        omega
      · omega
      · rw [List.length_append]
        omega
    exact apart _ (List.getElem_mem within) (shared ▸ List.getElem_mem _)
  rw [List.append_assoc, List.drop_append_of_le_length (by omega)] at here
  refine ⟨by omega, List.prefix_of_prefix_length_le here (List.prefix_append _ _) ?_⟩
  rw [List.length_drop]
  omega

theorem prefix_drop_append {key before : Bytes} {i : Nat} (less : i < before.length) (here : key <+: before.drop i)
    (after : Bytes) : key <+: (before ++ after).drop i := by
  rw [List.drop_append_of_le_length (Nat.le_of_lt less)]
  exact here.trans (List.prefix_append _ _)

/-- Where no key has a character of the replacement, any text is replaced in order. -/
theorem orderly_of_apart {replaceBy : Bytes} (filled : ∀ key ∈ keys, key ≠ []) (nonempty : replaceBy ≠ [])
    (apart : ∀ key ∈ keys, ∀ c ∈ key, c ∉ replaceBy) (front rest : Bytes)
    (clear : ∀ other ∈ keys, other <:+: rest → ∀ i < front.length, ¬other <+: (front ++ rest).drop i) :
    Orderly keys replaceBy front rest := by
  induction size : rest.length using Nat.strong_induction_on generalizing front rest with
  | h n ih =>
    by_cases absent : ∀ key ∈ keys, ¬key <:+: rest
    · exact .done absent
    · simp only [not_forall, not_not] at absent
      obtain ⟨found, given, inside⟩ := absent
      obtain ⟨before, key, after, rfl, member, longest, first⟩ := exists_first filled given inside
      have next : ∀ other ∈ keys, other <:+: before ++ key ++ after →
          ∀ i < (front ++ before ++ replaceBy).length, ¬other <+: (front ++ before ++ replaceBy ++ after).drop i := by
        intro other among occurs i less here
        obtain ⟨before_end, old⟩ := prefix_of_drop nonempty (apart other among) (filled other among) less here
        -- it was there before the key was replaced
        by_cases early : i < front.length
        · apply clear other among occurs i early
          have whole := prefix_drop_append before_end old (key ++ after)
          simpa only [List.append_assoc] using whole
        · rw [List.length_append] at before_end
          rw [List.drop_append, List.drop_eq_nil_of_le (Nat.le_of_not_lt early), List.nil_append] at old
          apply first other among (i - front.length) (by omega)
          have whole := prefix_drop_append (by omega) old (key ++ after)
          simpa only [List.append_assoc] using whole
      apply Orderly.next member longest first next
      apply ih after.length
      case a =>
        have length := List.length_pos_of_ne_nil (filled key member)
        simp only [List.length_append] at size
        omega
      case clear =>
        intro other among occurs
        exact next other among (occurs.trans (List.suffix_append _ _).isInfix)
      case size => rfl

end

/-- Every value gets its own position, where no key begins in what was replaced already. -/
theorem positions {keys : List Bytes} {replaceBy sqlQuery : Bytes} (sorted : keys.Pairwise (· ≤ ·))
    (apart : ∀ key ∈ keys, ¬key <:+: replaceBy) (orderly : Orderly keys replaceBy [] sqlQuery) :
    ∃ turns finished, replaceKeys replaceBy turns ⟨sqlQuery, keys, []⟩ = some finished ∧
      Replaced keys replaceBy sqlQuery finished.sqlQuery finished.keysOutByPos := by
  have filled : ∀ key ∈ keys, key ≠ [] := by
    intro key member same
    exact apart key member (same ▸ List.nil_infix)
  have searched : Searched keys [] sqlQuery ⟨sqlQuery, keys, []⟩ := by
    constructor
    case sqlQuery => rfl
    case keysIn => exact List.Sublist.refl _
    case kept => exact fun key member _ => member
    case clear => exact fun key member i less => absurd less (Nat.not_lt_zero i)
  obtain ⟨turns, finished, text, out, ends, text_eq, out_eq, replaced⟩ :=
    replaceKeys_of_orderly filled sorted orderly searched
  refine ⟨turns, finished, ends, ?_⟩
  rw [text_eq, out_eq]
  exact replaced

/-- One parameter that goes on where another ends, and one that the text does not have. -/
theorem positions_extended :
    ∃ turns finished, replaceKeys (ascii "?") turns
        ⟨ascii ":idx=:id OR :id", [ascii ":id", ascii ":idx", ascii ":name"], []⟩ = some finished ∧
      Replaced [ascii ":id", ascii ":idx", ascii ":name"] (ascii "?") (ascii ":idx=:id OR :id") finished.sqlQuery
        finished.keysOutByPos := by
  apply positions
  case sorted => decide +kernel
  case apart => decide +kernel
  case orderly =>
    apply orderly_of_apart
    case filled => decide +kernel
    case nonempty => decide +kernel
    case apart => decide +kernel
    case clear => exact fun other member occurs i less => absurd less (Nat.not_lt_zero i)

theorem replaceKeys_add {replaceBy : Bytes} {turns : Nat} {query finished : Replacing}
    (ends : replaceKeys replaceBy turns query = some finished) (more : Nat) :
    replaceKeys replaceBy (turns + more) query = some finished := by
  induction turns generalizing query with
  | zero => contradiction
  | succ turns ih =>
    rw [Nat.succ_add]
    rw [replaceKeys] at ends ⊢
    split
    · rename_i query' turn
      rw [turn] at ends
      exact ih ends
    · rename_i query' turn
      rw [turn] at ends
      exact ends

/-- The replacement of `:k` makes a key of what stands next to it, and that is replaced first. -/
theorem seam_replaced :
    ¬∀ (keys : List Bytes) (replaceBy sqlQuery : Bytes), keys.Pairwise (· ≤ ·) →
      (∀ key ∈ keys, ¬key <:+: replaceBy) →
      ∃ turns finished, replaceKeys replaceBy turns ⟨sqlQuery, keys, []⟩ = some finished ∧
        Replaced keys replaceBy sqlQuery finished.sqlQuery finished.keysOutByPos := by
  intro claim
  obtain ⟨turns, finished, ends, replaced⟩ :=
    claim [ascii ":k", ascii "x?y"] (ascii "?") (ascii "x:ky x?y") (by decide +kernel) (by decide +kernel)
  have code : replaceKeys (ascii "?") 4 ⟨ascii "x:ky x?y", [ascii ":k", ascii "x?y"], []⟩ =
      some ⟨ascii "? ?", [], [ascii ":k", ascii "x?y", ascii "x?y"]⟩ := by decide +kernel
  have same : finished = ⟨ascii "? ?", [], [ascii ":k", ascii "x?y", ascii "x?y"]⟩ := by
    have long := replaceKeys_add ends 4
    rw [Nat.add_comm, replaceKeys_add code turns] at long
    exact (Option.some.inj long).symm
  subst same
  have kept := @Replaced.starts _ _ 0x78 (ascii ":ky x?y") _ _ (by decide +kernel) replaced
  revert kept
  decide +kernel

end Mantids.Database
