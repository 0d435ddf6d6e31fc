import Mantids.Library.Delivery
import Mantids.Protocols.Url

/-! The URL decoder as a stream (`streamdecoder_url.cpp`), write by write. -/

set_option autoImplicit false

namespace Mantids.HTTP.Decoders.URL

open Memory Library

/-- What a write reports; the decoder never sets `finish`. -/
structure Status where
  succeed : Bool
  bytesWritten : Nat
  deriving DecidableEq

/-- Of `bytes` only the filled ones are there; behind the decoder stands another stream. -/
structure Decoder (σ : Type) where
  bytes : Bytes
  orig : σ

/-- From left to right: a plus is a space, an escape its byte, and what only looks like an escape
goes through up to the byte that shows it. -/
def reference : Bytes → Bytes
  | [] => []
  | byte :: rest =>
    if byte = 43 then 32 :: reference rest
    else if byte = 37 then
      match rest with
      | [] => [byte]
      | first :: rest =>
        if isxdigit first then
          match rest with
          | [] => [byte, first]
          | second :: rest =>
            if isxdigit second then hexPairToByte first second :: reference rest
            else byte :: first :: second :: reference rest
        else byte :: first :: reference rest
    else byte :: reference rest

/-- The one that keeps an escape back does the same as the one that looks ahead. -/
theorem reference_eq (url : Bytes) : reference url = decodeURLStr url := by
  unfold decodeURLStr
  fun_induction reference url with
  | case1 => rfl
  | _ => simp_all [write]

/-! ## The decoder -/

namespace Decoder

section
variable {σ : Type}

def new (orig : σ) : Decoder σ := ⟨[], orig⟩

/-- How many bytes there are before the first that is special. -/
def getPlainBytesSize (data : Bytes) : Nat := (data.takeWhile fun byte => byte ≠ 37 && byte ≠ 43).length

-- that of the stream behind: whether it has taken the bytes, and what it is then
variable (writeFullStream : σ → Bytes → Bool × σ)

/-- Something is handed over. -/
def forward (d : Decoder σ) (bytes data : Bytes) (bytesWritten : Nat) : Status × Decoder σ :=
  let (succeed, orig) := writeFullStream d.orig data
  (⟨succeed, bytesWritten⟩, ⟨bytes, orig⟩)

def write (d : Decoder σ) (data : Bytes) : Status × Decoder σ :=
  match data, d.bytes with
  | [], bytes => (⟨bytes = [], 0⟩, d)
  | byte :: rest, [] =>
    let plainBytes := getPlainBytesSize (byte :: rest)
    if 0 < plainBytes then d.forward writeFullStream [] ((byte :: rest).take plainBytes) plainBytes
    else if byte = 37 then (⟨true, 1⟩, { d with bytes := [37] })
    else d.forward writeFullStream [] [32] 1
  | byte :: _, [mark] =>
    if isxdigit byte then (⟨true, 1⟩, { d with bytes := [mark, byte] })
    else d.forward writeFullStream [] [mark, byte] 1
  | byte :: _, mark :: first :: _ =>
    if isxdigit byte then d.forward writeFullStream [] [hexPairToByte first byte] 1
    else d.forward writeFullStream [] [mark, first, byte] 1

/-- What is left of an escape goes through; nobody is told whether it was taken. -/
def writeEOF (d : Decoder σ) : Decoder σ := if d.bytes = [] then d else (d.forward writeFullStream [] d.bytes 0).2

/-- `writeFullStream` of the decoder itself. Every turn of its loop consumes a byte, so there are as many
turns as bytes. -/
def writeAll (d : Decoder σ) : (turns : Nat) → Bytes → Status × Decoder σ
  | 0, _ => (⟨true, 0⟩, d)
  | turns + 1, buf =>
    if buf = [] then (⟨true, 0⟩, d)
    else
      let (cur, d) := d.write writeFullStream buf
      if cur.succeed then
        let (more, d) := writeAll d turns (buf.drop cur.bytesWritten)
        (⟨more.succeed, cur.bytesWritten + more.bytesWritten⟩, d)
      else (cur, d)

/-- One write after the other, until one fails. -/
def feed (d : Decoder σ) : List Bytes → List Status × Decoder σ
  | [] => ([], d)
  | buf :: later =>
    let (cur, d) := d.writeAll writeFullStream buf.length buf
    if cur.succeed then
      let (more, d) := feed d later
      (cur :: more, d)
    else ([cur], d)

/-! ## What goes through -/

variable {writeFullStream}

/-- A write ends with so much consumed and the text handed over, or the stream behind has refused a piece of it. -/
def Passes (writeFullStream : σ → Bytes → Bool × σ) (d : Decoder σ) (buf : Bytes) (consumed : Nat)
    (result : Status × Decoder σ) : Prop :=
  (result.1 = ⟨true, consumed⟩ ∧ ∃ out, Delivers writeFullStream d.orig out result.2.orig ∧
      ∀ later, URL.write d.bytes (buf ++ later) = out ++ URL.write result.2.bytes later) ∨
    result.1.succeed = false ∧ ∀ later, Refuses writeFullStream d.orig (URL.write d.bytes (buf ++ later))

theorem passes_forward (d : Decoder σ) {bytes data buf : Bytes} {bytesWritten : Nat}
    (decodes : ∀ later, URL.write d.bytes (buf ++ later) = data ++ URL.write bytes later) :
    Passes writeFullStream d buf bytesWritten (d.forward writeFullStream bytes data bytesWritten) := by
  unfold forward
  cases taken : (writeFullStream d.orig data).1 with
  | true =>
    refine .inl ⟨by simp [taken], data, delivers_piece taken, decodes⟩
  | false =>
    refine .inr ⟨taken, fun later => ?_⟩
    rw [decodes]
    exact .here data _ taken

theorem write_plain {plain : Bytes} (free : ∀ byte ∈ plain, byte ≠ 37 ∧ byte ≠ 43) (rest : Bytes) :
    URL.write [] (plain ++ rest) = plain ++ URL.write [] rest := by
  induction plain with
  | nil => rfl
  | cons byte plain ih =>
    rw [List.forall_mem_cons] at free
    rw [List.cons_append, URL.write, if_neg free.1.1, if_neg free.1.2, ih free.2]
    rfl

theorem getPlainBytesSize_le (data : Bytes) : getPlainBytesSize data ≤ data.length :=
  (List.takeWhile_sublist _).length_le

theorem take_plain (data : Bytes) : ∀ byte ∈ data.take (getPlainBytesSize data), byte ≠ 37 ∧ byte ≠ 43 := by
  rw [getPlainBytesSize, ← List.prefix_iff_eq_take.mp (List.takeWhile_prefix _)]
  intro byte mem
  simpa using List.mem_takeWhile_imp mem

theorem special_of_plain {byte : UInt8} {rest : Bytes} (none : ¬0 < getPlainBytesSize (byte :: rest)) :
    byte = 37 ∨ byte = 43 := by
  by_contra plain
  rw [not_or] at plain
  apply none
  simp [getPlainBytesSize, plain]

/-- A byte that is only kept. -/
theorem passes_kept (d : Decoder σ) {byte : UInt8} {bytes : Bytes}
    (decodes : ∀ later, URL.write d.bytes (byte :: later) = URL.write bytes later) :
    Passes writeFullStream d [byte] 1 (⟨true, 1⟩, { d with bytes := bytes }) :=
  .inl ⟨rfl, [], .nothing _, decodes⟩

/-- What is written on, when all before has gone through. -/
theorem Passes.trans {d between : Decoder σ} {first second : Bytes} {count consumed : Nat}
    {last : Status × Decoder σ}
    (one : Passes writeFullStream d first count (⟨true, count⟩, between))
    (two : Passes writeFullStream between second consumed last) :
    Passes writeFullStream d (first ++ second) (count + consumed)
      (⟨last.1.succeed, count + last.1.bytesWritten⟩, last.2) := by
  obtain ⟨-, out, delivers, decodes⟩ | ⟨failed, -⟩ := one
  · obtain ⟨status, more, delivered, decoded⟩ | ⟨failed, refuses⟩ := two
    · refine .inl ⟨by rw [status], out ++ more, delivers.append delivered, fun later => ?_⟩
      rw [List.append_assoc, decodes, decoded, List.append_assoc]
    · refine .inr ⟨failed, fun later => ?_⟩
      rw [List.append_assoc, decodes]
      exact delivers.refuses (refuses later)
  · cases failed

variable (writeFullStream)

/-- One call of `write` consumes a byte at least, and what it consumes is decoded. -/
theorem passes_write (d : Decoder σ) {buf : Bytes} (held : d.bytes.length ≤ 2) (filled : buf ≠ []) :
    ∃ consumed, 0 < consumed ∧ consumed ≤ buf.length ∧
      Passes writeFullStream d (buf.take consumed) consumed (d.write writeFullStream buf) := by
  obtain ⟨bytes, orig⟩ := d
  obtain ⟨byte, rest, rfl⟩ := List.exists_cons_of_ne_nil filled
  match bytes with
  | [] =>
    by_cases plain : 0 < getPlainBytesSize (byte :: rest)
    · refine ⟨_, plain, getPlainBytesSize_le _, ?_⟩
      simp only [write, if_pos plain]
      exact passes_forward _ fun later => write_plain (take_plain _) later
    · refine ⟨1, Nat.one_pos, Nat.le_add_left 1 _, ?_⟩
      simp only [write, if_neg plain]
      obtain mark | plus := special_of_plain plain
      · rw [if_pos mark]
        exact passes_kept _ fun later => by simp [URL.write, mark]
      · rw [if_neg (by simp [plus])]
        exact passes_forward _ fun later => by simp [URL.write, plus]
  | [mark] =>
    refine ⟨1, Nat.one_pos, Nat.le_add_left 1 _, ?_⟩
    simp only [write]
    split
    case isTrue digit => exact passes_kept _ fun later => by simp [URL.write, digit]
    case isFalse other => exact passes_forward _ fun later => by simp [URL.write, other]
  | [mark, first] =>
    refine ⟨1, Nat.one_pos, Nat.le_add_left 1 _, ?_⟩
    simp only [write]
    split
    case isTrue digit => exact passes_forward _ fun later => by simp [URL.write, digit]
    case isFalse other => exact passes_forward _ fun later => by simp [URL.write, other]
  | _ :: _ :: _ :: _ =>
    simp only [List.length_cons] at held
    omega

theorem held_write (d : Decoder σ) (buf : Bytes) (held : d.bytes.length ≤ 2) :
    (d.write writeFullStream buf).2.bytes.length ≤ 2 := by
  fun_cases write writeFullStream d buf <;> simp_all [forward]

/-- A full write consumes everything, unless the stream behind refuses. -/
theorem passes_writeAll {turns : Nat} {d : Decoder σ} (buf : Bytes) (held : d.bytes.length ≤ 2)
    (enough : buf.length ≤ turns) :
    Passes writeFullStream d buf buf.length (d.writeAll writeFullStream turns buf) ∧
      (d.writeAll writeFullStream turns buf).2.bytes.length ≤ 2 := by
  induction turns generalizing d buf with
  | zero =>
    obtain rfl := List.length_eq_zero_iff.mp (Nat.le_zero.mp enough)
    exact ⟨.inl ⟨rfl, [], .nothing _, fun _ => rfl⟩, held⟩
  | succ turns ih =>
    rw [writeAll]
    split
    case isTrue empty =>
      subst empty
      exact ⟨.inl ⟨rfl, [], .nothing _, fun _ => rfl⟩, held⟩
    case isFalse filled =>
      obtain ⟨consumed, positive, within, passes⟩ := passes_write writeFullStream d held filled
      have kept := held_write writeFullStream d buf held
      generalize d.write writeFullStream buf = result at passes kept
      obtain ⟨cur, between⟩ := result
      have whole := List.take_append_drop consumed buf
      obtain ⟨status, out, delivers, decodes⟩ | ⟨failed, refuses⟩ := passes
      · obtain rfl := status
        obtain ⟨on, keeps⟩ := ih (buf.drop consumed) kept (by simp only [List.length_drop]; omega)
        have both := Passes.trans (.inl ⟨rfl, out, delivers, decodes⟩) on
        rw [whole, List.length_drop, Nat.add_sub_cancel' within] at both
        exact ⟨both, keeps⟩
      · simp only at failed
        simp only [failed, Bool.false_eq_true, if_false]
        refine ⟨.inr ⟨failed, fun later => ?_⟩, kept⟩
        rw [← whole, List.append_assoc]
        exact refuses (buf.drop consumed ++ later)

/-- Each write reports its own bytes, and the decoder has handed over what all of them decode to. -/
theorem passes_feed (d : Decoder σ) (writes : List Bytes) (held : d.bytes.length ≤ 2) :
    ((d.feed writeFullStream writes).1 = writes.map (fun buf => ⟨true, buf.length⟩) ∧
      ∃ out, Delivers writeFullStream d.orig out (d.feed writeFullStream writes).2.orig ∧
        URL.write d.bytes writes.flatten = out ++ (d.feed writeFullStream writes).2.bytes) ∨
      Refuses writeFullStream d.orig (URL.write d.bytes writes.flatten) := by
  induction writes generalizing d with
  | nil => exact .inl ⟨rfl, [], .nothing _, by cases bytes : d.bytes <;> simp [feed, URL.write, bytes]⟩
  | cons buf later ih =>
    obtain ⟨passes, kept⟩ := passes_writeAll writeFullStream buf held (Nat.le_refl buf.length)
    rw [feed, List.flatten_cons]
    generalize d.writeAll writeFullStream buf.length buf = result at passes kept
    obtain ⟨cur, between⟩ := result
    obtain ⟨status, out, delivers, decodes⟩ | ⟨failed, refuses⟩ := passes
    · obtain rfl := status
      obtain ⟨statuses, more, delivered, decoded⟩ | refuses := ih between kept
      · refine .inl ⟨by simp [statuses], out ++ more, delivers.append delivered, ?_⟩
        rw [decodes, decoded, List.append_assoc]
        rfl
      · refine .inr ?_
        rw [decodes]
        exact delivers.refuses refuses
    · exact .inr (refuses later.flatten)

/-- Whatever takes the bytes takes the reference text, however it was cut into writes, and each write
consumes its bytes; or it refuses a piece of that text. -/
theorem passes_stream (orig : σ) (writes : List Bytes) :
    ((new orig).feed writeFullStream writes).1 = writes.map (fun buf => ⟨true, buf.length⟩) ∧
        Delivers writeFullStream orig (reference writes.flatten)
          (((new orig).feed writeFullStream writes).2.writeEOF writeFullStream).orig ∨
      Refuses writeFullStream orig (reference writes.flatten) := by
  rw [reference_eq, decodeURLStr]
  obtain ⟨statuses, out, delivers, decodes⟩ | refuses :=
    passes_feed writeFullStream (new orig) writes (Nat.zero_le 2)
  · simp only [new] at statuses delivers decodes ⊢
    rw [decodes]
    generalize feed writeFullStream ⟨[], orig⟩ writes = result at statuses delivers
    obtain ⟨reports, last⟩ := result
    rw [writeEOF]
    split
    case isTrue empty =>
      rw [empty, List.append_nil]
      exact .inl ⟨statuses, delivers⟩
    case isFalse _ =>
      -- what is still kept is handed over at the end
      cases taken : (writeFullStream last.orig last.bytes).1 with
      | true => exact .inl ⟨statuses, delivers.append (delivers_piece taken)⟩
      | false =>
        refine .inr (delivers.refuses ?_)
        have here := Refuses.here last.bytes [] taken
        rwa [List.append_nil] at here
  · exact .inr refuses

end

/-- A container that appends what it is given ends with the reference text, and no other stream is handed
anything else. -/
theorem decodes_stream (writes : List Bytes) :
    (∀ {σ : Type} (writeFullStream : σ → Bytes → Bool × σ) (orig : σ),
      ((new orig).feed writeFullStream writes).1 = writes.map (fun buf => ⟨true, buf.length⟩) ∧
          Delivers writeFullStream orig (reference writes.flatten)
            (((new orig).feed writeFullStream writes).2.writeEOF writeFullStream).orig ∨
        Refuses writeFullStream orig (reference writes.flatten)) ∧
      (((new []).feed (fun taken piece => (true, taken ++ piece)) writes).2.writeEOF
        fun taken piece => (true, taken ++ piece)).orig = reference writes.flatten := by
  refine ⟨fun sink orig => passes_stream sink orig writes, ?_⟩
  obtain ⟨-, delivers⟩ | refuses := passes_stream (fun taken piece => (true, taken ++ piece)) [] writes
  · exact delivers.eq_append
  · exact absurd refuses (not_refuses (fun _ _ => rfl) _)

end Decoder

end Mantids.HTTP.Decoders.URL
