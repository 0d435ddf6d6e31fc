import Mantids.Protocols.SecurityHeaders

/-! The place-holders of quoted texts, and what comes back for them. -/

set_option autoImplicit false

namespace Mantids.MIME.HeaderParameters

open Library Memory

/-! ## Place-holders -/

section
variable {secureReplace : RandomString}

theorem isalnum_ne {byte : UInt8} (letter : byte = 95 ∨ Helpers.Encoders.isalnum byte = true) :
    byte ≠ quotation ∧ byte ≠ semicolon ∧ byte ≠ equalsSign ∧ HTTP.isSpace byte = false := by
  revert letter
  revert byte
  apply Helpers.Encoders.forall_byte
  decide +kernel

theorem isalnum_digit {byte : UInt8} (digit : (48 ≤ byte && byte ≤ 57) = true) : Helpers.Encoders.isalnum byte = true := by
  revert digit
  revert byte
  apply Helpers.Encoders.forall_byte
  decide +kernel

theorem mem_staticMessage {pos : Nat} {byte : UInt8} (member : byte ∈ staticMessage secureReplace pos) :
    byte = 95 ∨ Helpers.Encoders.isalnum byte = true := by
  simp only [staticMessage, List.mem_append] at member
  rcases member with ((inWord | tag) | sign) | digit
  · have kinds : (ascii "_STATIC_").all (fun byte => byte = 95 || Helpers.Encoders.isalnum byte) = true := by decide +kernel
    have kind := List.all_eq_true.mp kinds byte inWord
    rwa [Bool.or_eq_true, decide_eq_true_eq] at kind
  · exact .inr (secureReplace.alphanumeric byte tag)
  · exact .inl (List.mem_singleton.mp sign)
  · exact .inr (isalnum_digit (HTTP.Headers.decimal_digits pos byte digit))

theorem plain_staticMessage (secureReplace : RandomString) (pos : Nat) :
    quotation ∉ staticMessage secureReplace pos ∧ semicolon ∉ staticMessage secureReplace pos :=
  ⟨fun member => (isalnum_ne (mem_staticMessage member)).1 rfl,
    fun member => (isalnum_ne (mem_staticMessage member)).2.1 rfl⟩

/-- All of a place-holder but its number. -/
def holder (secureReplace : RandomString) : Bytes := ascii "_STATIC_" ++ secureReplace.text ++ ascii "_"

theorem staticMessage_eq (pos : Nat) : staticMessage secureReplace pos = holder secureReplace ++ decimal pos := rfl

/-- The random string is not in the text. -/
def Untagged (secureReplace : RandomString) (text : Bytes) : Prop := ¬secureReplace.text <:+: text

theorem untagged_of_inside {text whole : Bytes} (inside : text <:+: whole) (untagged : Untagged secureReplace whole) :
    Untagged secureReplace text := fun tag => untagged (tag.trans inside)

theorem tag_staticMessage (pos : Nat) : secureReplace.text <:+: staticMessage secureReplace pos :=
  ⟨ascii "_STATIC_", ascii "_" ++ decimal pos, by simp [staticMessage]⟩

theorem underscore_tag : (95 : UInt8) ∉ secureReplace.text := by
  intro member
  have kind := secureReplace.alphanumeric 95 member
  revert kind
  decide

theorem underscore_decimal (pos : Nat) : (95 : UInt8) ∉ decimal pos := by
  intro member
  have digit := HTTP.Headers.decimal_digits pos 95 member
  revert digit
  decide

/-- A place-holder is found in another one only at its front. -/
theorem decimal_of_infix {pos other : Nat} (found : staticMessage secureReplace pos <:+: staticMessage secureReplace other) :
    decimal pos <+: decimal other := by
  have pattern : staticMessage secureReplace pos =
      95 :: (ascii "STATIC_" ++ (secureReplace.text ++ 95 :: decimal pos)) := by simp [staticMessage, ascii]
  have text : staticMessage secureReplace other =
      95 :: (ascii "STATIC" ++ 95 :: (secureReplace.text ++ 95 :: decimal other)) := by simp [staticMessage, ascii]
  rw [text] at found
  rcases List.infix_cons_iff.mp found with here | later
  · rw [← text, staticMessage_eq, staticMessage_eq] at here
    exact (List.prefix_append_right_inj _).mp here
  · rw [pattern] at later
    rcases List.infix_cons_iff.mp (infix_behind (by decide) later) with second | behind
    · have word : ascii "STATIC_" <+: secureReplace.text ++ 95 :: decimal other :=
        (List.prefix_append _ _).trans (List.cons_prefix_cons.mp second).2
      have inTag := List.prefix_of_prefix_length_le word (List.prefix_append _ _) (by
        rw [secureReplace.length]
        decide)
      exact absurd (inTag.subset (by decide : (95 : UInt8) ∈ ascii "STATIC_")) underscore_tag
    · rcases List.infix_cons_iff.mp (infix_behind underscore_tag behind) with third | digits
      · have word : ascii "STATIC_" <+: decimal other :=
          (List.prefix_append _ _).trans (List.cons_prefix_cons.mp third).2
        exact absurd (word.subset (by decide : (95 : UInt8) ∈ ascii "STATIC_")) (underscore_decimal other)
      · exact absurd (digits.subset List.mem_cons_self) (underscore_decimal other)

theorem not_infix_of_untagged {text : Bytes} (untagged : Untagged secureReplace text) (pos : Nat) :
    ¬staticMessage secureReplace pos <:+: text := fun found => untagged ((tag_staticMessage pos).trans found)

/-- Digits behind a text do not make a place-holder. -/
theorem not_infix_digits {text : Bytes} (untagged : Untagged secureReplace text) {digits : Bytes}
    (plain : (95 : UInt8) ∉ digits) (pos : Nat) : ¬staticMessage secureReplace pos <:+: text ++ digits := by
  intro found
  have parts : staticMessage secureReplace pos = (ascii "_STATIC_" ++ secureReplace.text) ++ 95 :: decimal pos := by
    simp [staticMessage, ascii]
  obtain ⟨front, back, whole⟩ := found
  rw [parts, ← List.append_assoc, List.append_assoc, List.cons_append] at whole
  rcases List.append_eq_append_iff.mp whole with ⟨more, inText, -⟩ | ⟨more, -, inDigits⟩
  · -- the sign behind the tag is in the text, so the tag is
    apply untagged
    exact ⟨front ++ ascii "_STATIC_", more, by rw [inText, List.append_assoc front]⟩
  · rw [inDigits] at plain
    exact plain (List.mem_append_right _ List.mem_cons_self)

theorem foldl_absent {entries : List (Bytes × Nat)} {text : Bytes}
    (absent : ∀ entry ∈ entries, ¬staticMessage secureReplace entry.2 <:+: text) :
    entries.foldl (fun text entry => replaceAll (staticMessage secureReplace entry.2) entry.1 text) text = text := by
  induction entries with
  | nil => rfl
  | cons entry rest ih =>
    rw [List.foldl_cons, replaceAll_of_not_infix (absent entry List.mem_cons_self)]
    exact ih fun other member => absent other (.tail _ member)

theorem replaceBack_untagged (vStaticTexts : List Bytes) {text : Bytes} (untagged : Untagged secureReplace text) :
    replaceBack secureReplace vStaticTexts text = text :=
  foldl_absent fun entry _ => not_infix_of_untagged untagged entry.2

/-! ## Numbers -/

/-- What comes back for a number: the text whose number is its first digit, and the other digits. -/
def restored (vStaticTexts : List Bytes) (pos : Nat) : Bytes :=
  vStaticTexts.getD ((decimal pos).headD 48 - 48).toNat [] ++ (decimal pos).tail

/-- The first digit. -/
def leading (pos : Nat) : Nat := ((decimal pos).headD 48 - 48).toNat

theorem decimal_small {pos : Nat} (small : pos < 10) : decimal pos = [48 + UInt8.ofNat pos] ∧ leading pos = pos := by
  revert pos
  decide

theorem decimal_ne_nil (pos : Nat) : decimal pos ≠ [] := by
  unfold decimal
  split
  · exact List.cons_ne_nil _ _
  · rename_i positive
    simp [Nat.digits_ne_nil_iff_ne_zero.mpr positive]

theorem decimal_leading (pos : Nat) : leading pos < 10 ∧ decimal pos = decimal (leading pos) ++ (decimal pos).tail := by
  unfold leading
  cases shown : decimal pos with
  | nil => exact absurd shown (decimal_ne_nil pos)
  | cons digit rest =>
    have member : digit ∈ decimal pos := by
      rw [shown]
      exact List.mem_cons_self
    have kind := HTTP.Headers.decimal_digits pos digit member
    simp only [Bool.and_eq_true, decide_eq_true_eq, UInt8.le_iff_toNat_le] at kind
    have low : 48 ≤ digit.toNat := kind.1
    have high : digit.toNat ≤ 57 := kind.2
    have value : (digit - 48).toNat = digit.toNat - 48 := UInt8.toNat_sub_of_le _ _ (UInt8.le_iff_toNat_le.mpr low)
    have small : (digit - 48).toNat < 10 := by omega
    refine ⟨small, ?_⟩
    rw [List.headD_cons, (decimal_small small).1, List.tail_cons, UInt8.ofNat_toNat]
    simp

theorem leading_le (pos : Nat) : leading pos ≤ pos := by
  by_cases small : pos < 10
  · exact (decimal_small small).2.le
  · have digit := (decimal_leading pos).1
    omega

/-- The place-holders are put back from the lowest number on, so one of more digits is taken for the first. -/
theorem replaceBack_staticMessage {vStaticTexts : List Bytes} (untagged : ∀ text ∈ vStaticTexts, Untagged secureReplace text)
    {pos : Nat} (inside : pos < vStaticTexts.length) :
    replaceBack secureReplace vStaticTexts (staticMessage secureReplace pos) = restored vStaticTexts pos := by
  obtain ⟨small, shown⟩ := decimal_leading pos
  have number : leading pos < vStaticTexts.length := Nat.lt_of_le_of_lt (leading_le pos) inside
  obtain ⟨front, rest, split, place⟩ : ∃ front rest, vStaticTexts = front ++ vStaticTexts[leading pos] :: rest ∧
      front.length = leading pos :=
    ⟨vStaticTexts.take (leading pos), vStaticTexts.drop (leading pos + 1), by simp, by simp; omega⟩
  generalize same : vStaticTexts[leading pos] = text at split
  have member : text ∈ vStaticTexts := same ▸ List.getElem_mem number
  have plain : (95 : UInt8) ∉ (decimal pos).tail := fun behind => underscore_decimal pos (List.mem_of_mem_tail behind)
  have message : staticMessage secureReplace pos = staticMessage secureReplace (leading pos) ++ (decimal pos).tail := by
    rw [staticMessage_eq, staticMessage_eq, List.append_assoc, ← shown]
  have lower : ∀ entry ∈ front.zipIdx, ¬staticMessage secureReplace entry.2 <:+: staticMessage secureReplace pos := by
    intro entry known found
    have below := (List.mem_zipIdx known).2.1
    have less : entry.2 < leading pos := by omega
    have digit := decimal_of_infix found
    rw [(decimal_small (Nat.lt_trans less small)).1, shown, (decimal_small small).1] at digit
    have equal := congrArg UInt8.toNat (List.cons_prefix_cons.mp digit).1
    simp only [UInt8.toNat_add, UInt8.toNat_ofNat, UInt8.toNat_ofNat'] at equal
    omega
  have higher : ∀ entry ∈ rest.zipIdx (leading pos + 1),
      ¬staticMessage secureReplace entry.2 <:+: text ++ (decimal pos).tail :=
    fun entry _ => not_infix_digits (untagged text member) plain entry.2
  have opens : staticMessage secureReplace (leading pos) =
      95 :: (ascii "STATIC_" ++ secureReplace.text ++ ascii "_" ++ decimal (leading pos)) := by simp [staticMessage, ascii]
  have there : replaceAll (staticMessage secureReplace (leading pos)) text (staticMessage secureReplace pos) =
      text ++ (decimal pos).tail := by
    have filled : staticMessage secureReplace (leading pos) ≠ [] := by
      rw [opens]
      exact List.cons_ne_nil _ _
    rw [message, replaceAll_occurrence filled, opens, replaceAll_absent plain]
  have value : restored vStaticTexts pos = text ++ (decimal pos).tail := by
    have found : vStaticTexts.getD (leading pos) [] = text := by
      rw [List.getD_eq_getElem _ _ number]
      exact same
    exact congrArg (· ++ (decimal pos).tail) found
  rw [value, replaceBack, split, List.zipIdx_append, Nat.zero_add, List.zipIdx_cons, place, List.foldl_append,
    foldl_absent lower, List.foldl_cons, there, foldl_absent higher]

end

end Mantids.MIME.HeaderParameters
