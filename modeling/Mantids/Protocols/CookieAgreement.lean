import Mantids.Protocols.Cookies

/-! Which cookies come through to the other end. -/

set_option autoImplicit false

namespace Mantids.HTTP

open Memory Library MIME

/-! ## Texts without blanks -/

/-- A byte of a cookie: printable, and no blank, comma, semicolon, backslash or quotation mark. -/
def cookieOctet (byte : UInt8) : Bool :=
  33 ≤ byte && byte ≤ 126 && byte ≠ quotation && byte ≠ 44 && byte ≠ semicolon && byte ≠ 92

section
variable {byte : UInt8} (octet : cookieOctet byte = true)
include octet

theorem cookieOctet_ne : byte ≠ 0 ∧ byte ≠ 13 ∧ byte ≠ quotation ∧ byte ≠ semicolon ∧ isSpace byte = false ∧
    (32 ≤ byte && byte ≤ 126) = true := by
  revert octet
  revert byte
  apply Helpers.Encoders.forall_byte
  decide +kernel

end

theorem trim_of_solid {text : Bytes} (first : ∀ byte ∈ text.head?, isSpace byte = false)
    (last : ∀ byte ∈ text.getLast?, isSpace byte = false) : MIME.trim text = text := by
  unfold MIME.trim
  have front : text.dropWhile isSpace = text := by
    cases text with
    | nil => rfl
    | cons byte rest => rw [List.dropWhile_cons_of_neg (by simp [first byte rfl])]
  have back : text.reverse.dropWhile isSpace = text.reverse := by
    cases reversed : text.reverse with
    | nil => rfl
    | cons byte rest =>
      have ends : byte ∈ text.getLast? := by
        rw [← List.head?_reverse, reversed]
        rfl
      rw [List.dropWhile_cons_of_neg (by simp [last byte ends])]
  rw [front, back, List.reverse_reverse]

theorem trim_of_forall {text : Bytes} (solid : ∀ byte ∈ text, isSpace byte = false) : MIME.trim text = text :=
  trim_of_solid (fun byte first => solid byte (List.mem_of_mem_head? first))
    fun byte last => solid byte (List.mem_of_mem_getLast? last)

theorem split_of_forall {isAnyOf : UInt8 → Bool} {text : Bytes} (none : ∀ byte ∈ text, isAnyOf byte = false) :
    split isAnyOf text = [text] := by
  induction text with
  | nil => rfl
  | cons byte rest ih =>
    rw [split, if_neg (by simp [none byte List.mem_cons_self]), ih fun other member => none other (.tail _ member)]

/-- A text behind one byte that separates. -/
theorem split_behind {isAnyOf : UInt8 → Bool} {separator : UInt8} {text : Bytes} (separates : isAnyOf separator = true)
    (none : ∀ byte ∈ text, isAnyOf byte = false) : split isAnyOf (separator :: text) = [[], text] := by
  have next : ¬(text.head?.any isAnyOf) = true := by
    cases text with
    | nil => simp
    | cons byte rest => simp [none byte List.mem_cons_self]
  rw [split, if_pos separates, if_neg next, split_of_forall none]

/-! ## The jar of the client -/

namespace CookiesClientSide

/-- The jar that the cookies have been added to. -/
def ofList (cookies : List (Bytes × Bytes)) : CookiesClientSide :=
  cookies.foldl (fun jar cookie => jar.addCookieVal cookie.1 cookie.2) .empty

/-- Names and values of the alphabet, none of the names there twice, and no longer than a header line may be. -/
structure Permitted (cookies : List (Bytes × Bytes)) : Prop where
  distinct : (cookies.map (·.1)).Nodup
  names : ∀ cookie ∈ cookies, ∀ byte ∈ cookie.1, cookieOctet byte = true ∧ byte ≠ equalsSign
  values : ∀ cookie ∈ cookies, ∀ byte ∈ cookie.2, cookieOctet byte = true
  short : (ascii "Cookie: " ++ (ofList cookies).toString).length + crlf.length ≤ 8 * 1024

/-- The jar is read back from its text, and the server finds each of its cookies. -/
def ComesThrough (cookies : List (Bytes × Bytes)) : Prop :=
  parseFromHeaders .empty (ofList cookies).toString = ofList cookies ∧
    ∀ random, ∀ cookie ∈ cookies,
      getCookie (MIMESubHeader.readLines random [ascii "Cookie: " ++ (ofList cookies).toString]) cookie.1 = cookie.2

theorem addCookieVal_perm {jar : CookiesClientSide} {name : Bytes} (value : Bytes) (fresh : ∀ entry ∈ jar.entries, entry.1 ≠ name) :
    (jar.addCookieVal name value).entries.Perm ((name, value) :: jar.entries) := by
  have kept : (jar.erase name).entries = jar.entries := by
    unfold Multimap.erase
    rw [List.filter_eq_self]
    intro entry member
    simp [fresh entry member]
  have placed : (jar.addCookieVal name value).entries.Perm ((name, value) :: (jar.erase name).entries) :=
    Multimap.place_perm name value _
  rwa [kept] at placed

theorem foldl_addCookieVal_perm (cookies : List (Bytes × Bytes)) {jar : CookiesClientSide}
    (distinct : (cookies.map (·.1)).Nodup) (fresh : ∀ entry ∈ jar.entries, ∀ cookie ∈ cookies, entry.1 ≠ cookie.1) :
    (cookies.foldl (fun jar cookie => jar.addCookieVal cookie.1 cookie.2) jar).entries.Perm (cookies ++ jar.entries) := by
  induction cookies generalizing jar with
  | nil => rfl
  | cons cookie rest ih =>
    rw [List.map_cons, List.nodup_cons] at distinct
    have added := addCookieVal_perm cookie.2 fun entry member => fresh entry member cookie List.mem_cons_self
    have later := @ih (jar.addCookieVal cookie.1 cookie.2) distinct.2 (by
      intro entry member other behind
      rcases List.mem_cons.mp (added.mem_iff.mp member) with rfl | old
      · intro same
        exact distinct.1 (List.mem_map.mpr ⟨other, behind, same.symm⟩)
      · exact fresh entry old other (.tail _ behind))
    exact later.trans ((added.append_left rest).trans List.perm_middle)

theorem perm_ofList {cookies : List (Bytes × Bytes)} (distinct : (cookies.map (·.1)).Nodup) :
    (ofList cookies).entries.Perm cookies := by
  have perm := @foldl_addCookieVal_perm cookies .empty distinct fun entry member => by cases member
  rwa [show (Multimap.empty : CookiesClientSide).entries = [] from rfl, List.append_nil] at perm

/-! ## The text of the jar -/

section
variable {entries : List (Bytes × Bytes)} (names : ∀ cookie ∈ entries, ∀ byte ∈ cookie.1, cookieOctet byte = true)
  (values : ∀ cookie ∈ entries, ∀ byte ∈ cookie.2, cookieOctet byte = true)
include names values

theorem octets_toStringFrom : ∀ byte ∈ toStringFrom false entries, cookieOctet byte = true := by
  induction entries with
  | nil => simp [toStringFrom]
  | cons cookie rest ih =>
    intro byte member
    simp only [toStringFrom, Bool.false_eq_true, if_false, List.nil_append, List.append_assoc, List.mem_append,
      List.cons_append, List.mem_cons] at member
    rcases member with name | rfl | value | later
    · exact names cookie List.mem_cons_self byte name
    · decide
    · exact values cookie List.mem_cons_self byte value
    · exact ih (fun other here => names other (.tail _ here)) (fun other here => values other (.tail _ here)) byte later

end

section
variable {cookie : Bytes × Bytes} {more : Bytes} (name : ∀ byte ∈ cookie.1, cookieOctet byte = true ∧ byte ≠ equalsSign)
  (octets : ∀ byte ∈ more, cookieOctet byte = true)
include name octets

/-- What is before the first sign, what is behind it, and both without the blank. -/
theorem cut_text :
    (32 :: (cookie.1 ++ equalsSign :: more)).takeWhile (fun byte => decide (byte ≠ equalsSign)) = 32 :: cookie.1 ∧
      (32 :: (cookie.1 ++ equalsSign :: more)).dropWhile (fun byte => decide (byte ≠ equalsSign)) =
        equalsSign :: more ∧
      MIME.trim (32 :: cookie.1) = cookie.1 ∧ MIME.trim more = more := by
  have before : ∀ byte ∈ 32 :: cookie.1, decide (byte ≠ equalsSign) = true := by
    intro byte member
    rcases List.mem_cons.mp member with rfl | later
    · decide
    · exact decide_eq_true (name byte later).2
  have solid := trim_of_forall fun byte member => (cookieOctet_ne (name byte member).1).2.2.2.2.1
  refine ⟨?_, ?_, ?_, trim_of_forall fun byte member => (cookieOctet_ne (octets byte member)).2.2.2.2.1⟩
  · rw [← List.cons_append, List.takeWhile_append_of_pos before, List.takeWhile_cons_of_neg (by simp), List.append_nil]
  · rw [← List.cons_append, List.dropWhile_append_of_pos before, List.dropWhile_cons_of_neg (by simp)]
  · unfold MIME.trim at solid ⊢
    rwa [List.dropWhile_cons_of_pos (by decide)]

/-- The first name, and everything behind the first sign as its value. -/
theorem parseCookie_text (jar : CookiesClientSide) :
    jar.parseCookie (32 :: (cookie.1 ++ equalsSign :: more)) = jar.addCookieVal cookie.1 more := by
  obtain ⟨front, found, blank, value⟩ := cut_text name octets
  unfold parseCookie
  rw [found, front]
  dsimp only
  rw [blank, cString_eq_self fun byte member => (cookieOctet_ne (octets byte member)).1, value]

theorem text_no_semicolon : ∀ byte ∈ 32 :: (cookie.1 ++ equalsSign :: more), decide (byte = semicolon) = false := by
  intro byte member
  simp only [List.mem_cons, List.mem_append] at member
  rcases member with rfl | inName | rfl | behind
  · decide
  · exact decide_eq_false (cookieOctet_ne (name byte inName).1).2.2.2.1
  · decide
  · exact decide_eq_false (cookieOctet_ne (octets byte behind)).2.2.2.1

theorem parseFromHeaders_text :
    parseFromHeaders .empty (semicolon :: 32 :: (cookie.1 ++ equalsSign :: more)) =
      addCookieVal .empty cookie.1 more := by
  unfold parseFromHeaders
  rw [split_behind (by decide) (text_no_semicolon name octets), List.foldl_cons, List.foldl_cons, List.foldl_nil,
    show parseCookie .empty [] = .empty from rfl, parseCookie_text name octets]

end

/-- A text of one part behind the first semicolon is a value with one sub value, where it fits. -/
theorem getSubVar_text {cookie : Bytes × Bytes} {option : MIMEHeaderOption}
    (name : ∀ byte ∈ cookie.1, cookieOctet byte = true ∧ byte ≠ equalsSign)
    (value : ∀ byte ∈ cookie.2, cookieOctet byte = true) (short : cookie.1.length + cookie.2.length ≤ 8 * 1024)
    (made : MIMEHeaderOption.Made (ascii "Cookie") (semicolon :: 32 :: (cookie.1 ++ equalsSign :: cookie.2)) option) :
    option.getSubVar cookie.1 = cookie.2 := by
  obtain ⟨allocation, secureReplace, rfl⟩ := made
  have octets : ∀ byte ∈ semicolon :: 32 :: (cookie.1 ++ equalsSign :: cookie.2), byte ≠ quotation := by
    intro byte member
    simp only [List.mem_cons, List.mem_append] at member
    rcases member with rfl | rfl | inName | rfl | inValue
    · decide
    · decide
    · exact (cookieOctet_ne (name byte inName).1).2.2.1
    · decide
    · exact (cookieOctet_ne (value byte inValue)).2.2.1
  have plain : quotation ∉ semicolon :: 32 :: (cookie.1 ++ equalsSign :: cookie.2) := fun member => octets _ member rfl
  have solid : MIME.trim (semicolon :: 32 :: (cookie.1 ++ equalsSign :: cookie.2)) =
      semicolon :: 32 :: (cookie.1 ++ equalsSign :: cookie.2) := by
    refine trim_of_solid (fun byte first => ?_) (fun byte last => ?_)
    · cases first
      decide
    · have behind : byte ∈ (equalsSign :: cookie.2).getLast? := by
        rwa [← List.cons_append, ← List.cons_append, List.getLast?_append_of_ne_nil _ (List.cons_ne_nil _ _)] at last
      rcases List.mem_cons.mp (List.mem_of_mem_getLast? behind) with rfl | inValue
      · decide
      · exact (cookieOctet_ne (value byte inValue)).2.2.2.2.1
  obtain ⟨front, found, blank, tail⟩ := cut_text name value
  have sign : equalsSign ∈ 32 :: (cookie.1 ++ equalsSign :: cookie.2) := by simp
  rw [MIMEHeaderOption.parseSubValues_plain _ secureReplace plain, solid,
    split_behind (by decide) (text_no_semicolon name value), List.foldl_cons, List.foldl_cons, List.foldl_nil]
  -- The empty part in front of the semicolon adds nothing.
  rw [show ∀ option : MIMEHeaderOption, option.addPart id [] = option from fun option => rfl]
  unfold MIMEHeaderOption.addPart
  rw [if_pos sign, front, found, List.tail_cons, blank, tail]
  simp only [id]
  unfold MIMEHeaderOption.getSubVar
  dsimp only
  by_cases empty : cookie.1 = [] ∧ cookie.2 = []
  · unfold MIMEHeaderOption.addSubVar
    rw [if_pos empty, empty.2]
    rfl
  · have permitted : ∀ text : Bytes, (∀ byte ∈ text, cookieOctet byte = true) →
        MIMEHeaderOption.isPermited7bitCharset text = true := by
      intro text octets
      unfold MIMEHeaderOption.isPermited7bitCharset
      rw [List.all_eq_true]
      exact fun byte member => (cookieOctet_ne (octets byte member)).2.2.2.2.2
    rw [MIMEHeaderOption.addSubVar_room _ _ _ empty]
    · simp [Multimap.find, Multimap.insert, Multimap.place, MIMEHeaderOption.new, Multimap.empty]
    · exact Nat.zero_lt_succ 15
    · exact short
    · exact permitted _ fun byte member => (name byte member).1
    · exact permitted _ value

/-- The server's block with the line of one cookie. -/
theorem getCookie_text (random : Nat → RandomString) {cookie : Bytes × Bytes}
    (name : ∀ byte ∈ cookie.1, cookieOctet byte = true ∧ byte ≠ equalsSign)
    (value : ∀ byte ∈ cookie.2, cookieOctet byte = true) (short : cookie.1.length + cookie.2.length ≤ 8 * 1024) :
    getCookie (MIMESubHeader.readLines random
      [ascii "Cookie: " ++ semicolon :: 32 :: (cookie.1 ++ equalsSign :: cookie.2)]) cookie.1 = cookie.2 := by
  have proper : ProperField (ascii "Cookie") (semicolon :: 32 :: (cookie.1 ++ equalsSign :: cookie.2)) := by
    refine ⟨⟨67, ascii "ookie", by decide, by decide, by decide⟩, by decide, ?_⟩
    intro byte member
    simp only [List.mem_cons, List.mem_append] at member
    rcases member with rfl | rfl | inName | rfl | inValue
    · decide
    · decide
    · exact ⟨(cookieOctet_ne (name byte inName).1).2.1, (cookieOctet_ne (name byte inName).1).1⟩
    · decide
    · exact ⟨(cookieOctet_ne (value byte inValue)).2.1, (cookieOctet_ne (value byte inValue)).1⟩
  obtain ⟨options, of, read⟩ := @MIMESubHeader.values_foldl_fields random
    [(ascii "Cookie", semicolon :: 32 :: (cookie.1 ++ equalsSign :: cookie.2))] .new
    (fun field member => by rwa [List.mem_singleton.mp member]) (Nat.le_add_left 1 31) (toUpper (ascii "Cookie"))
  rw [List.filter_cons_of_pos (by simp), List.filter_nil] at of
  cases of with
  | @cons _ option _ _ made rest =>
    cases rest
    have line : ([(ascii "Cookie", semicolon :: 32 :: (cookie.1 ++ equalsSign :: cookie.2))].map
        fun field => field.1 ++ [58, 32] ++ field.2) =
          [ascii "Cookie: " ++ semicolon :: 32 :: (cookie.1 ++ equalsSign :: cookie.2)] := rfl
    rw [line] at read
    unfold getCookie MIMESubHeader.getOptionByName MIMESubHeader.readLines
    rw [Multimap.find_eq, read]
    exact getSubVar_text name value short made

/-- One cookie comes through. Of several, the client's text is that of one cookie with everything else in its value. -/
theorem comesThrough_iff {cookies : List (Bytes × Bytes)} (permitted : Permitted cookies) :
    ComesThrough cookies ↔ cookies.length ≤ 1 := by
  have perm := perm_ofList permitted.distinct
  cases entries : (ofList cookies).entries with
  | nil =>
    rw [entries, List.nil_perm] at perm
    subst perm
    exact iff_of_true ⟨rfl, fun _ cookie member => by cases member⟩ (by decide)
  | cons cookie rest =>
    rw [entries] at perm
    have inside : ∀ one ∈ cookie :: rest, one ∈ cookies := fun one member => perm.mem_iff.mp member
    have name := permitted.names cookie (inside cookie List.mem_cons_self)
    have later := @octets_toStringFrom rest
      (fun one member byte here => (permitted.names one (inside one (.tail _ member)) byte here).1)
      (fun one member => permitted.values one (inside one (.tail _ member)))
    have octets : ∀ byte ∈ cookie.2 ++ toStringFrom false rest, cookieOctet byte = true := by
      intro byte member
      rcases List.mem_append.mp member with value | behind
      · exact permitted.values cookie (inside cookie List.mem_cons_self) byte value
      · exact later byte behind
    have text : (ofList cookies).toString =
        semicolon :: 32 :: (cookie.1 ++ equalsSign :: (cookie.2 ++ toStringFrom false rest)) := by
      simp [toString, entries, toStringFrom]
    have parsed := parseFromHeaders_text name octets
    constructor
    · rintro ⟨read, -⟩
      have same := congrArg (fun jar : CookiesClientSide => jar.entries.length) (text ▸ read)
      rw [parsed] at same
      change 1 = (ofList cookies).entries.length at same
      rw [entries, perm.length_eq] at same
      omega
    · intro few
      rw [← perm.length_eq, List.length_cons] at few
      obtain rfl : rest = [] := List.eq_nil_of_length_eq_zero (by omega)
      rw [List.perm_comm, List.perm_singleton] at perm
      subst perm
      simp only [toStringFrom, List.append_nil] at parsed text
      refine ⟨?_, ?_⟩
      · rw [text, parsed]
        apply Multimap.ext
        rw [entries]
        rfl
      · intro random one member
        rw [List.mem_singleton.mp member, text]
        have short := permitted.short
        rw [text] at short
        simp only [List.length_append, List.length_cons] at short
        exact getCookie_text random name (permitted.values cookie (inside cookie List.mem_cons_self)) (by omega)

end CookiesClientSide

/-! ## The jar of the server -/

namespace CookiesServerSide

def ofList (cookies : List (Bytes × Cookie)) : CookiesServerSide :=
  cookies.foldl (fun jar cookie => (jar.addCookieVal cookie.1 cookie.2).2) .empty

/-- Names and values of the alphabet, and attributes that a header line can carry. -/
structure Permitted (cookies : List (Bytes × Cookie)) : Prop where
  names : ∀ cookie ∈ cookies, ∀ byte ∈ cookie.1, cookieOctet byte = true
  values : ∀ cookie ∈ cookies, ∀ byte ∈ cookie.2.value, cookieOctet byte = true
  domains : ∀ cookie ∈ cookies, PlainText cookie.2.domain
  paths : ∀ cookie ∈ cookies, PlainText cookie.2.path

/-- The client reads the headers of the response, and finds each cookie as the server has it. -/
def Collected (dates : DateTexts) (own : MIMESubHeader) (cookies : List (Bytes × Cookie)) : Prop :=
  ∀ serverRandom clientRandom, ∀ cookie ∈ cookies,
    getCookieByName (parseHeaders2ServerCookies dates
      (MIMESubHeader.readLines clientRandom (putOnHeaders serverRandom dates (ofList cookies) own).lines) .empty)
        cookie.1 = some cookie.2

theorem mem_ofList {cookies : List (Bytes × Cookie)} :
    ∀ entry ∈ (ofList cookies).entries, entry ∈ cookies := by
  have step : ∀ (rest : List (Bytes × Cookie)) (jar : CookiesServerSide), (∀ entry ∈ jar.entries, entry ∈ cookies) →
      (∀ entry ∈ rest, entry ∈ cookies) →
      ∀ entry ∈ (rest.foldl (fun jar cookie => (jar.addCookieVal cookie.1 cookie.2).2) jar).entries, entry ∈ cookies := by
    intro rest
    induction rest with
    | nil => exact fun jar there _ => there
    | cons cookie rest ih =>
      intro jar there coming
      refine ih _ ?_ fun entry member => coming entry (.tail _ member)
      intro entry member
      simp only [addCookieVal] at member
      split at member
      · exact there entry member
      · rcases Multimap.mem_insert.mp member with rfl | old
        · exact coming _ List.mem_cons_self
        · exact there entry old
  exact step cookies .empty (fun entry member => by cases member) fun entry member => member

theorem plainText_octets {text : Bytes} (octets : ∀ byte ∈ text, cookieOctet byte = true) : PlainText text :=
  fun byte member => ⟨(cookieOctet_ne (octets byte member)).2.1, (cookieOctet_ne (octets byte member)).1⟩

theorem properField_setCookie (dates : DateTexts) {name : Bytes} {cookie : Cookie}
    (octets : ∀ byte ∈ name, cookieOctet byte = true) (value : ∀ byte ∈ cookie.value, cookieOctet byte = true)
    (domain : PlainText cookie.domain) (path : PlainText cookie.path) :
    ProperField (ascii "Set-Cookie") (cookie.toSetCookieString dates name) := by
  have literal : ∀ text : Bytes, (text.all fun byte => byte ≠ 13 && byte ≠ 0) = true → PlainText text := by
    intro text all byte member
    simpa using List.all_eq_true.mp all byte member
  refine ⟨⟨83, ascii "et-Cookie", by decide, by decide, by decide⟩, by decide, ?_⟩
  unfold Cookie.toSetCookieString
  refine .append (.append (.append (.append (.append (.append (.append (.append (.append (.append ?_ ?_) ?_) ?_) ?_) ?_)
    ?_) ?_) ?_) ?_) ?_
  · exact plainText_octets octets
  · exact literal _ (by decide)
  · exact plainText_octets value
  · exact literal _ (by decide)
  · exact plainText_if (.append (.append (literal _ (by decide)) (dates.plain _)) (literal _ (by decide)))
  · exact plainText_if (.append (.append (literal _ (by decide)) (plainText_decimal _)) (literal _ (by decide)))
  · exact plainText_if (literal _ (by decide))
  · exact plainText_if (literal _ (by decide))
  · exact plainText_if (.append (.append (literal _ (by decide)) domain) (literal _ (by decide)))
  · exact plainText_if (.append (.append (literal _ (by decide)) path) (literal _ (by decide)))
  · cases cookie.sameSite with
    | none => exact literal _ (by decide)
    | strict => exact literal _ (by decide)
    | lax => exact literal _ (by decide)

theorem proper_putOnHeaders (random : Nat → RandomString) (dates : DateTexts) {jar : CookiesServerSide}
    (fields : ∀ entry ∈ jar.entries, ProperField (ascii "Set-Cookie") (entry.2.toSetCookieString dates entry.1))
    {headers : MIMESubHeader} (proper : headers.Proper) :
    (putOnHeaders random dates jar headers).Proper ∧
      (putOnHeaders random dates jar headers).maxOptions = headers.maxOptions := by
  unfold putOnHeaders
  generalize jar.entries = entries at fields
  induction entries generalizing headers with
  | nil => exact ⟨proper, rfl⟩
  | cons entry rest ih =>
    have added := proper.add random (fields entry List.mem_cons_self)
    obtain ⟨later, maxOptions⟩ := ih added fun other member => fields other (.tail _ member)
    exact ⟨later, maxOptions.trans (MIMESubHeader.maxOptions_add random headers _ _)⟩

/-- The client looks for headers without a name, and a proper block has none. -/
theorem getOptionsByName_nil (random : Nat → RandomString) {header : MIMESubHeader} (proper : header.Proper)
    (count : header.maxOptions = 32) : (MIMESubHeader.readLines random header.lines).getOptionsByName [] = [] := by
  have unnamed : header.headers.values [] = [] := by
    unfold Multimap.values
    rw [List.map_eq_nil_iff, List.filter_eq_nil_iff]
    intro entry member
    obtain ⟨key, field⟩ := proper.fields entry member
    obtain ⟨first, rest, name, -, -⟩ := field.begins
    rw [key, name]
    simp [toUpper]
  have of := MIMESubHeader.values_readLines random proper count []
  rw [unnamed] at of
  cases same : (MIMESubHeader.readLines random header.lines).headers.values [] with
  | nil => exact same
  | cons option rest =>
    rw [same] at of
    cases of

theorem collected_iff (dates : DateTexts) {own : MIMESubHeader} (proper : own.Proper) (count : own.maxOptions = 32)
    {cookies : List (Bytes × Cookie)} (permitted : Permitted cookies) : Collected dates own cookies ↔ cookies = [] := by
  constructor
  · intro collected
    cases cookies with
    | nil => rfl
    | cons cookie rest =>
      have random : RandomString := .letters
      have found := collected (fun _ => random) (fun _ => random) cookie List.mem_cons_self
      obtain ⟨block, maxOptions⟩ := proper_putOnHeaders (fun _ => random) dates
        (fun entry member => properField_setCookie dates (permitted.names entry (mem_ofList entry member))
          (permitted.values entry (mem_ofList entry member)) (permitted.domains entry (mem_ofList entry member))
          (permitted.paths entry (mem_ofList entry member))) proper
      unfold parseHeaders2ServerCookies at found
      rw [getOptionsByName_nil _ block (maxOptions.trans count)] at found
      cases found
  · rintro rfl _ _ cookie member
    cases member

end CookiesServerSide

/-! ## Both ways -/

/-- Of what a client sends, no more than one cookie comes through; of what a server sends, none. -/
theorem cookies_agree_iff (dates : DateTexts) {own : MIMESubHeader} (proper : own.Proper) (count : own.maxOptions = 32)
    {sent : List (Bytes × Bytes)} (permitted : CookiesClientSide.Permitted sent) {set : List (Bytes × Cookie)}
    (attributes : CookiesServerSide.Permitted set) :
    (CookiesClientSide.ComesThrough sent ↔ sent.length ≤ 1) ∧
      (CookiesServerSide.Collected dates own set ↔ set = []) :=
  ⟨CookiesClientSide.comesThrough_iff permitted, CookiesServerSide.collected_iff dates proper count attributes⟩

/-- The texts of the epoch, as the classic locale has them. -/
def epochTexts : DateTexts where
  toString _ := ascii "Thu, 01 Jan 1970 00:00:00 GMT"
  fromString _ := 0
  plain _ := by decide

theorem proper_new : MIMESubHeader.new.Proper := ⟨Nat.zero_le _, fun entry member => by cases member⟩

/-- Two cookies of a client. -/
def sentCookies : List (Bytes × Bytes) := [(ascii "a", ascii "1"), (ascii "b", ascii "2")]

/-- One cookie of a server. -/
def setCookies : List (Bytes × Cookie) := [(ascii "s", { Cookie.setDefaults with value := ascii "x", secure := true })]

theorem permitted_sentCookies : CookiesClientSide.Permitted sentCookies where
  distinct := by decide
  names := by decide
  values := by decide
  short := by decide +kernel

theorem permitted_setCookies : CookiesServerSide.Permitted setCookies where
  names := by decide
  values := by decide
  domains := by
    unfold PlainText
    decide
  paths := by
    unfold PlainText
    decide

theorem cookies_agree_iff_two :
    (CookiesClientSide.ComesThrough sentCookies ↔ sentCookies.length ≤ 1) ∧
      (CookiesServerSide.Collected epochTexts .new setCookies ↔ setCookies = []) :=
  cookies_agree_iff epochTexts proper_new rfl permitted_sentCookies permitted_setCookies

/-- Two cookies go out as `; a=1b=2`, and the one that is set is not collected. -/
theorem cookies_disagree :
    ¬CookiesClientSide.ComesThrough sentCookies ∧ ¬CookiesServerSide.Collected epochTexts .new setCookies := by
  refine ⟨?_, ?_⟩
  · rw [CookiesClientSide.comesThrough_iff permitted_sentCookies]
    decide
  · rw [CookiesServerSide.collected_iff epochTexts proper_new rfl permitted_setCookies]
    decide

end Mantids.HTTP
