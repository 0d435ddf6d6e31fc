import Mantids.Library.Runs
import Mantids.Protocols.HeaderInjection
import Mantids.Protocols.HttpContent
import Mantids.Protocols.SecurityHeaders

/-! The headers of an answer (`streamServerHeaders` of `httpv1_server.cpp`), put into a block that has room for so many
and refuses any other. -/

set_option autoImplicit false

namespace Mantids.HTTP.ResponseHeaders

open Memory Library MIME

/-! ## Blocks that only grow -/

/-- What is asked of a block. -/
inductive BlockCall where
  | put (call : HeaderCall)
  | remove (optionName : Bytes)

namespace BlockCall

def apply (random : Nat → RandomString) (header : MIMESubHeader) : BlockCall → MIMESubHeader
  | put call => call.apply random header
  | remove optionName => header.remove optionName

/-- The field that is to be there afterwards. -/
def puts : BlockCall → Option Field
  | put (.add optionName optionValue) | put (.replace optionName optionValue) => some (optionName, optionValue)
  | remove _ => none

/-- The name, in capitals, of the fields that go. -/
def drops : BlockCall → Option Bytes
  | put (.add _ _) => none
  | put (.replace optionName _) | remove optionName => some (toUpper optionName)

@[simp] theorem puts_add (optionName optionValue : Bytes) :
    (put (.add optionName optionValue)).puts = some (optionName, optionValue) := rfl

@[simp] theorem puts_replace (optionName optionValue : Bytes) :
    (put (.replace optionName optionValue)).puts = some (optionName, optionValue) := rfl

@[simp] theorem puts_remove (optionName : Bytes) : (remove optionName).puts = none := rfl

@[simp] theorem drops_add (optionName optionValue : Bytes) : (put (.add optionName optionValue)).drops = none := rfl

@[simp] theorem drops_replace (optionName optionValue : Bytes) :
    (put (.replace optionName optionValue)).drops = some (toUpper optionName) := rfl

@[simp] theorem drops_remove (optionName : Bytes) : (remove optionName).drops = some (toUpper optionName) := rfl

/-- The fields that a call leaves of those before. -/
def keep (fields : List Field) (call : BlockCall) : List Field :=
  fields.filter fun field => some (toUpper field.1) ≠ call.drops

/-- With any room. -/
def followAll (fields : List Field) (call : BlockCall) : List Field := call.keep fields ++ call.puts.toList

/-- With the room there is. -/
def follow (maxOptions : Nat) (fields : List Field) (call : BlockCall) : List Field :=
  call.puts.elim (call.keep fields) (HeaderCall.put maxOptions (call.keep fields))

/-- The block is full where the call has a field for it. -/
def Unrefused (maxOptions : Nat) (fields : List Field) (call : BlockCall) : Prop :=
  call.puts.isSome = true → (call.keep fields).length ≠ maxOptions

instance (maxOptions : Nat) (fields : List Field) (call : BlockCall) : Decidable (Unrefused maxOptions fields call) :=
  inferInstanceAs (Decidable (_ → _))

/-- What one call puts no later one drops. -/
def Lasting (calls : List BlockCall) : Prop :=
  calls.Pairwise fun earlier later => ∀ field ∈ earlier.puts, later.drops ≠ some (toUpper field.1)

/-- The names, in capitals, that a call puts and drops. -/
def names (call : BlockCall) : Option Bytes × Option Bytes := (call.puts.map fun field => toUpper field.1, call.drops)

/-- It is enough to look at the names, also of calls that are not made. -/
theorem lasting_of_names {calls : List BlockCall} {named : List (Option Bytes × Option Bytes)}
    (made : (calls.map names).Sublist named)
    (lasts : named.Pairwise fun earlier later => earlier.1 = none ∨ later.2 ≠ earlier.1) : Lasting calls := by
  have pairs := List.pairwise_map.mp (lasts.sublist made)
  apply pairs.imp
  intro earlier later either field put
  have same : earlier.puts = some field := put
  rcases either with none | other
  · rw [names, same] at none
    cases none
  · rw [names, names, same] at other
    exact other

section
variable {maxOptions : Nat} {fields all : List Field} {call : BlockCall}

theorem follow_of_unrefused (unrefused : Unrefused maxOptions fields call) :
    call.follow maxOptions fields = call.followAll fields := by
  unfold follow followAll
  unfold Unrefused at unrefused
  cases put : call.puts with
  | none => exact (List.append_nil _).symm
  | some field =>
    rw [put] at unrefused
    exact if_neg (unrefused rfl)

theorem follow_of_refused (refused : ¬Unrefused maxOptions fields call) :
    ∃ field, call.puts = some field ∧ call.follow maxOptions fields = call.keep fields := by
  unfold follow
  rw [Unrefused, Classical.not_imp, not_not] at refused
  obtain ⟨field, put⟩ := Option.isSome_iff_exists.mp refused.1
  exact ⟨field, put, by rw [put, Option.elim_some, HeaderCall.put, if_pos refused.2]⟩

/-- A block with less room has no other fields. -/
theorem subperm_follow (inside : fields.Subperm all) : (call.follow maxOptions fields).Subperm (call.followAll all) := by
  have kept : (call.keep fields).Subperm (call.keep all) := inside.filter _
  by_cases unrefused : Unrefused maxOptions fields call
  · rw [follow_of_unrefused unrefused]
    exact (List.subperm_append_right _).mpr kept
  · obtain ⟨field, _, same⟩ := follow_of_refused unrefused
    rw [same]
    exact kept.trans (List.sublist_append_left _ _).subperm

/-- A field that was refused is missed as long as it would have been there. -/
theorem foldl_missing {field : Field} {calls : List BlockCall}
    (lasts : ∀ call ∈ calls, call.drops ≠ some (toUpper field.1)) (missing : (field :: fields).Subperm all) :
    (field :: calls.foldl (follow maxOptions) fields).Subperm (calls.foldl followAll all) := by
  induction calls generalizing fields all with
  | nil => exact missing
  | cons call rest ih =>
    obtain ⟨first, later⟩ := List.forall_mem_cons.mp lasts
    apply ih later
    have kept : (field :: call.keep fields).Subperm (call.keep all) := by
      have filtered := missing.filter fun field => some (toUpper field.1) ≠ call.drops
      rwa [List.filter_cons_of_pos (by simpa using first.symm)] at filtered
    by_cases unrefused : Unrefused maxOptions fields call
    · rw [follow_of_unrefused unrefused]
      exact (List.subperm_append_right _).mpr kept
    · obtain ⟨other, _, same⟩ := follow_of_refused unrefused
      rw [same]
      exact kept.trans (List.sublist_append_left _ _).subperm

/-- Nothing is missed exactly where no call is refused. -/
theorem foldl_follow (calls : List BlockCall) (lasting : Lasting calls) (inside : fields.Subperm all) :
    (fields = all → Along (follow maxOptions) (Unrefused maxOptions) fields calls →
        calls.foldl (follow maxOptions) fields = calls.foldl followAll all) ∧
      (¬Along (follow maxOptions) (Unrefused maxOptions) fields calls →
        (calls.foldl (follow maxOptions) fields).length < (calls.foldl followAll all).length) := by
  induction calls generalizing fields all with
  | nil => exact ⟨fun same _ => same, fun stops => absurd trivial stops⟩
  | cons call rest ih =>
    obtain ⟨first, later⟩ := List.pairwise_cons.mp lasting
    have step := @ih (call.follow maxOptions fields) (call.followAll all) later (subperm_follow inside)
    constructor
    · intro same along
      subst same
      exact step.1 (follow_of_unrefused along.1) along.2
    · intro stops
      by_cases unrefused : Unrefused maxOptions fields call
      · exact step.2 fun along => stops ⟨unrefused, along⟩
      · obtain ⟨field, put, same⟩ := follow_of_refused unrefused
        have kept : (call.keep fields).Subperm (call.keep all) := inside.filter _
        have missing : (field :: call.keep fields).Subperm (call.followAll all) := by
          unfold followAll
          rw [put]
          exact ((List.subperm_cons field).mpr kept).trans (List.perm_append_singleton _ _).symm.subperm
        have lost := @foldl_missing maxOptions _ _ field rest (fun other member => first other member field put) missing
        rw [List.foldl_cons, List.foldl_cons, same]
        exact lost.length_le

/-- With any room, what no call drops stays, and what is put comes behind it. -/
theorem foldl_followAll (calls : List BlockCall) (lasting : Lasting calls) (fields : List Field) :
    calls.foldl followAll fields =
      fields.filter (fun field => toUpper field.1 ∉ calls.filterMap drops) ++ calls.filterMap puts := by
  induction calls generalizing fields with
  | nil => simp
  | cons call rest ih =>
    obtain ⟨first, later⟩ := List.pairwise_cons.mp lasting
    have stays : call.puts.toList.filter (fun field => toUpper field.1 ∉ rest.filterMap drops) = call.puts.toList := by
      rw [List.filter_eq_self]
      intro field member
      rw [decide_eq_true_eq, List.mem_filterMap]
      intro dropped
      obtain ⟨other, listed, same⟩ := dropped
      exact first other listed field (Option.mem_toList.mp member) same
    have kept : (call.keep fields).filter (fun field => toUpper field.1 ∉ rest.filterMap drops) =
        fields.filter fun field => toUpper field.1 ∉ (call :: rest).filterMap drops := by
      unfold keep
      rw [List.filter_filter]
      apply List.filter_congr
      intro field _
      cases drop : call.drops with
      | none => simp [drop]
      | some name => simp [drop, Bool.and_comm]
    have put : (call :: rest).filterMap puts = call.puts.toList ++ rest.filterMap puts := by
      cases put : call.puts <;> simp [put]
    rw [List.foldl_cons, ih later, followAll, List.filter_append, stays, kept, put, List.append_assoc]

/-- The block after the calls. -/
theorem foldl_apply (random : Nat → RandomString) (calls : List BlockCall) {header : MIMESubHeader}
    (keyed : header.Keyed) (same : header.fields.Perm fields) :
    (calls.foldl (apply random) header).fields.Perm (calls.foldl (follow header.maxOptions) fields) := by
  induction calls generalizing header fields with
  | nil => exact same
  | cons call rest ih =>
    have step : (call.apply random header).Keyed ∧ (call.apply random header).maxOptions = header.maxOptions ∧
        (call.apply random header).fields.Perm (call.follow header.maxOptions fields) := by
      cases call with
      | remove name =>
        refine ⟨keyed.remove name, rfl, ?_⟩
        rw [apply, keyed.fields_remove]
        exact (same.filter _).trans (.of_eq (List.filter_congr (by simp)))
      | put call =>
        cases call with
        | add name value =>
          refine ⟨keyed.add random name value, MIMESubHeader.maxOptions_add random header name value, ?_⟩
          have kept : (put (.add name value)).keep fields = fields := List.filter_eq_self.mpr (by simp)
          rw [follow, kept]
          exact (MIMESubHeader.fields_add random name value).trans (MIMESubHeader.perm_put _ same _)
        | replace name value =>
          refine ⟨(keyed.remove name).add random name value, ?_, ?_⟩
          · exact MIMESubHeader.maxOptions_replace random header name value
          · apply (MIMESubHeader.fields_add random name value).trans
            apply MIMESubHeader.perm_put
            rw [keyed.fields_remove]
            exact (same.filter _).trans (.of_eq (List.filter_congr (by simp)))
    obtain ⟨keyed', maxOptions, same'⟩ := step
    rw [← maxOptions] at same' ⊢
    exact ih keyed' same'

end

end BlockCall

/-! ## Answers -/

structure Security where
  xFrameOpts : Headers.XFrameOpts
  xssProtection : Headers.XSSProtection
  hsts : Headers.HSTS
  bNoSniffContentType : Bool

/-- An answer as the program has configured it, the size of its content, and what the server adds of its own. The
largest size stands for none. -/
structure ServerResponse where
  headers : MIMESubHeader
  keyed : headers.Keyed
  streamSize : Fin (2 ^ 64)
  transmitionMode : TransmitionMode
  includeServerDate : Bool
  currentDate : Bytes
  sWWWAuthenticateRealm : Bytes
  cookies : CookiesServerSide
  security : Security
  cacheControl : Headers.CacheControl
  contentType : Bytes

namespace ServerResponse

section
variable (random : Nat → RandomString) (dates : DateTexts) (response : ServerResponse)

def sized : Bool := response.streamSize ≠ 2 ^ 64 - 1

/-- The value of `WWW-Authenticate`. -/
def challenge : Bytes := ascii "Basic realm=\"" ++ response.sWWWAuthenticateRealm ++ ascii "\""

def connectionHeaders (headers : MIMESubHeader) : MIMESubHeader :=
  if response.sized then
    (headers.remove (ascii "Connection")).replace random (ascii "Content-Length") (MIME.decimal response.streamSize)
  else
    let headers := (headers.add random (ascii "Connection") (ascii "Close") 0).2
    let headers := headers.remove (ascii "Content-Length")
    if response.transmitionMode = .transmitModeChunks then
      headers.replace random (ascii "Transfer-Encoding") (ascii "Chunked")
    else headers

def securityHeaders (headers : MIMESubHeader) : MIMESubHeader :=
  let headers := headers.replace random (ascii "X-XSS-Protection") response.security.xssProtection.toValue
  let cacheOptions := response.cacheControl.toString
  let headers := if cacheOptions ≠ [] then headers.replace random (ascii "Cache-Control") cacheOptions else headers
  let headers :=
    if response.security.xFrameOpts.value ≠ .none then
      headers.replace random (ascii "X-Frame-Options") response.security.xFrameOpts.toValue
    else headers
  let headers :=
    if response.security.hsts.activated then
      headers.replace random (ascii "Strict-Transport-Security") response.security.hsts.toValue
    else headers
  if response.contentType ≠ [] then
    let headers := headers.replace random (ascii "Content-Type") response.contentType
    if response.security.bNoSniffContentType then
      headers.replace random (ascii "X-Content-Type-Options") (ascii "nosniff")
    else headers
  else headers

/-- The block as `streamServerHeaders` leaves it. What the calls return is not looked at. -/
def serverHeaders : MIMESubHeader :=
  let headers := response.connectionHeaders random response.headers
  let headers :=
    if response.includeServerDate then (headers.add random (ascii "Date") response.currentDate 0).2 else headers
  let headers :=
    if response.sWWWAuthenticateRealm ≠ [] then
      (headers.add random (ascii "WWW-Authenticate") response.challenge 0).2
    else headers
  let headers := headers.remove (ascii "Set-Cookie")
  let headers := response.cookies.putOnHeaders random dates headers
  response.securityHeaders random headers

/-- Lines until one cannot be written, and whether all of them could. -/
def streamLines (succeeds : Bytes → Bool) : List Bytes → Bool × List Bytes
  | [] => (true, [])
  | line :: rest =>
    if succeeds line then
      let (succeed, written) := streamLines succeeds rest
      (succeed, line :: written)
    else (false, [])

/-- What is returned, and the lines that were written. -/
def streamServerHeaders (succeeds : Bytes → Bool) : Bool × List Bytes :=
  streamLines succeeds ((response.serverHeaders random dates).lines.map (· ++ crlf) ++ [crlf])

/-! ## What is configured -/

/-- What the settings of the answer ask for. -/
def settings : List Field :=
  (if response.sized then [(ascii "Content-Length", MIME.decimal response.streamSize)]
    else (ascii "Connection", ascii "Close") ::
      if response.transmitionMode = .transmitModeChunks then [(ascii "Transfer-Encoding", ascii "Chunked")] else []) ++
  (if response.includeServerDate then [(ascii "Date", response.currentDate)] else []) ++
  (if response.sWWWAuthenticateRealm ≠ [] then [(ascii "WWW-Authenticate", response.challenge)] else []) ++
  response.cookies.entries.map (fun cookie => (ascii "Set-Cookie", cookie.2.toSetCookieString dates cookie.1)) ++
  [(ascii "X-XSS-Protection", response.security.xssProtection.toValue)] ++
  (if response.cacheControl.toString ≠ [] then [(ascii "Cache-Control", response.cacheControl.toString)] else []) ++
  (if response.security.xFrameOpts.value ≠ .none then [(ascii "X-Frame-Options", response.security.xFrameOpts.toValue)]
    else []) ++
  (if response.security.hsts.activated then [(ascii "Strict-Transport-Security", response.security.hsts.toValue)]
    else []) ++
  if response.contentType ≠ [] then
    (ascii "Content-Type", response.contentType) ::
      if response.security.bNoSniffContentType then [(ascii "X-Content-Type-Options", ascii "nosniff")] else []
  else []

/-- The names whose headers of the program the settings take away. -/
def overwritten : List Bytes :=
  (if response.sized then [ascii "Connection", ascii "Content-Length"]
    else ascii "Content-Length" ::
      if response.transmitionMode = .transmitModeChunks then [ascii "Transfer-Encoding"] else []) ++
  [ascii "Set-Cookie"] ++ [ascii "X-XSS-Protection"] ++
  (if response.cacheControl.toString ≠ [] then [ascii "Cache-Control"] else []) ++
  (if response.security.xFrameOpts.value ≠ .none then [ascii "X-Frame-Options"] else []) ++
  (if response.security.hsts.activated then [ascii "Strict-Transport-Security"] else []) ++
  if response.contentType ≠ [] then
    ascii "Content-Type" :: if response.security.bNoSniffContentType then [ascii "X-Content-Type-Options"] else []
  else []

local instance lawfulText : LawfulBEq (List UInt8) := inferInstance

/-- The headers of the program, and those of the settings. -/
def configured : List Field :=
  response.headers.fields.filter (fun field => toUpper field.1 ∉ response.overwritten.map toUpper) ++
    response.settings dates

/-- Each configured header has a line of its own among those written, or the failure is told. -/
def Complete : Prop :=
  ∀ succeeds : Bytes → Bool, (response.streamServerHeaders random dates succeeds).1 = true →
    ((response.configured dates).map fun field => field.line ++ crlf).Subperm
      (response.streamServerHeaders random dates succeeds).2

/-! ## The calls -/

/-- What `streamServerHeaders` asks of the block, in its order. -/
def calls : List BlockCall :=
  (if response.sized then
      [BlockCall.remove (ascii "Connection"),
        BlockCall.put (.replace (ascii "Content-Length") (MIME.decimal response.streamSize))]
    else BlockCall.put (.add (ascii "Connection") (ascii "Close")) ::
      BlockCall.remove (ascii "Content-Length") ::
      if response.transmitionMode = .transmitModeChunks then
        [BlockCall.put (.replace (ascii "Transfer-Encoding") (ascii "Chunked"))]
      else []) ++
  (if response.includeServerDate then [BlockCall.put (.add (ascii "Date") response.currentDate)] else []) ++
  (if response.sWWWAuthenticateRealm ≠ [] then
    [BlockCall.put (.add (ascii "WWW-Authenticate") response.challenge)] else []) ++
  [BlockCall.remove (ascii "Set-Cookie")] ++
  response.cookies.entries.map (fun cookie =>
    BlockCall.put (.add (ascii "Set-Cookie") (cookie.2.toSetCookieString dates cookie.1))) ++
  [BlockCall.put (.replace (ascii "X-XSS-Protection") response.security.xssProtection.toValue)] ++
  (if response.cacheControl.toString ≠ [] then
    [BlockCall.put (.replace (ascii "Cache-Control") response.cacheControl.toString)] else []) ++
  (if response.security.xFrameOpts.value ≠ .none then
    [BlockCall.put (.replace (ascii "X-Frame-Options") response.security.xFrameOpts.toValue)] else []) ++
  (if response.security.hsts.activated then
    [BlockCall.put (.replace (ascii "Strict-Transport-Security") response.security.hsts.toValue)] else []) ++
  if response.contentType ≠ [] then
    BlockCall.put (.replace (ascii "Content-Type") response.contentType) ::
      if response.security.bNoSniffContentType then
        [BlockCall.put (.replace (ascii "X-Content-Type-Options") (ascii "nosniff"))] else []
  else []

/-- No call finds the block full that has a field for it. -/
def Roomy : Prop :=
  Along (BlockCall.follow response.headers.maxOptions) (BlockCall.Unrefused response.headers.maxOptions)
    response.headers.fields (response.calls dates)

instance : Decidable (response.Roomy dates) := Along.decidable _ _ _ _

theorem serverHeaders_calls :
    response.serverHeaders random dates = (response.calls dates).foldl (BlockCall.apply random) response.headers := by
  have cookies (headers : MIMESubHeader) : response.cookies.putOnHeaders random dates headers =
      (response.cookies.entries.map fun cookie => BlockCall.put
        (.add (ascii "Set-Cookie") (cookie.2.toSetCookieString dates cookie.1))).foldl
          (BlockCall.apply random) headers := by
    rw [List.foldl_map]
    rfl
  have optional (condition : Prop) [Decidable condition] (listed : List BlockCall) (headers : MIMESubHeader) :
      (if condition then listed else []).foldl (BlockCall.apply random) headers =
        if condition then listed.foldl (BlockCall.apply random) headers else headers := by
    split <;> rfl
  unfold serverHeaders calls connectionHeaders securityHeaders
  simp only [cookies, List.foldl_append, List.foldl_cons, List.foldl_nil, optional,
    apply_ite fun listed => List.foldl (BlockCall.apply random) response.headers listed]
  rfl

/-- The settings are what the calls put. -/
theorem calls_puts : (response.calls dates).filterMap BlockCall.puts = response.settings dates := by
  have cookies : (response.cookies.entries.map fun cookie => BlockCall.put
      (.add (ascii "Set-Cookie") (cookie.2.toSetCookieString dates cookie.1))).filterMap BlockCall.puts =
        response.cookies.entries.map fun cookie => (ascii "Set-Cookie", cookie.2.toSetCookieString dates cookie.1) := by
    rw [List.filterMap_map]
    exact List.filterMap_eq_map_iff_forall_eq_some.mpr fun _ _ => rfl
  unfold calls settings
  simp only [List.filterMap_append, cookies, apply_ite (List.filterMap BlockCall.puts), List.filterMap_cons,
    List.filterMap_nil, BlockCall.puts_add, BlockCall.puts_replace, BlockCall.puts_remove, List.append_nil]

theorem calls_drops : (response.calls dates).filterMap BlockCall.drops = response.overwritten.map toUpper := by
  have cookies : (response.cookies.entries.map fun cookie => BlockCall.put
      (.add (ascii "Set-Cookie") (cookie.2.toSetCookieString dates cookie.1))).filterMap BlockCall.drops = [] := by
    rw [List.filterMap_map]
    exact List.filterMap_eq_nil_iff.mpr fun _ _ => rfl
  unfold calls overwritten
  simp only [List.filterMap_append, cookies, apply_ite (List.filterMap BlockCall.drops), List.filterMap_cons,
    List.filterMap_nil, BlockCall.drops_add, BlockCall.drops_replace, BlockCall.drops_remove, List.append_nil, ite_self,
    List.map_append, apply_ite (List.map toUpper), List.map_cons, List.map_nil]

/-- A name that is put is dropped by its own call or by one before. -/
theorem calls_lasting : BlockCall.Lasting (response.calls dates) := by
  let put (name : String) : Option Bytes × Option Bytes := (some (toUpper (ascii name)), none)
  let drop (name : String) : Option Bytes × Option Bytes := (none, some (toUpper (ascii name)))
  let both (name : String) : Option Bytes × Option Bytes := (some (toUpper (ascii name)), some (toUpper (ascii name)))
  -- Both branches of a choice stand behind each other.
  let before := [drop "Connection", put "Connection", drop "Content-Length", both "Content-Length",
    both "Transfer-Encoding", put "Date", put "WWW-Authenticate", drop "Set-Cookie"]
  let behind := [both "X-XSS-Protection", both "Cache-Control", both "X-Frame-Options",
    both "Strict-Transport-Security", both "Content-Type", both "X-Content-Type-Options"]
  have cookies : (response.cookies.entries.map fun cookie => BlockCall.put
      (.add (ascii "Set-Cookie") (cookie.2.toSetCookieString dates cookie.1))).map BlockCall.names =
        List.replicate response.cookies.entries.length (put "Set-Cookie") := by
    rw [List.map_map]
    show List.map (fun _ => put "Set-Cookie") _ = _
    exact List.map_const' ..
  have made : ((response.calls dates).map BlockCall.names).Sublist
      (before ++ List.replicate response.cookies.entries.length (put "Set-Cookie") ++ behind) := by
    have optional (condition : Prop) [Decidable condition] (listed : List BlockCall) :
        ((if condition then listed else []).map BlockCall.names).Sublist (listed.map BlockCall.names) := by
      split
      · exact List.Sublist.refl _
      · exact List.nil_sublist _
    have connection : ((if response.sized then
        [BlockCall.remove (ascii "Connection"),
          .put (.replace (ascii "Content-Length") (MIME.decimal response.streamSize))]
        else .put (.add (ascii "Connection") (ascii "Close")) :: .remove (ascii "Content-Length") ::
          if response.transmitionMode = .transmitModeChunks then
            [.put (.replace (ascii "Transfer-Encoding") (ascii "Chunked"))]
          else []).map BlockCall.names).Sublist (before.take 5) := by
      split
      · exact (by decide +kernel : [drop "Connection", both "Content-Length"].Sublist (before.take 5))
      · apply List.Sublist.cons
        exact ((optional _ _).cons _).cons_cons _ |>.cons_cons _
    have content : ((if response.contentType ≠ [] then
        BlockCall.put (.replace (ascii "Content-Type") response.contentType) ::
          if response.security.bNoSniffContentType then
            [.put (.replace (ascii "X-Content-Type-Options") (ascii "nosniff"))] else []
        else []).map BlockCall.names).Sublist [both "Content-Type", both "X-Content-Type-Options"] :=
      (optional _ _).trans ((optional _ _).cons_cons _)
    unfold calls
    simp only [List.map_append, cookies, List.append_assoc]
    apply connection.append
    apply (optional _ _).append
    apply (optional _ _).append
    apply (List.Sublist.refl _).append
    apply (List.Sublist.refl _).append
    apply (List.Sublist.refl _).append
    apply (optional _ _).append
    apply (optional _ _).append
    exact (optional _ _).append content
  apply BlockCall.lasting_of_names made
  have early : before.Pairwise fun earlier later => earlier.1 = none ∨ later.2 ≠ earlier.1 := by decide +kernel
  have late : behind.Pairwise fun earlier later => earlier.1 = none ∨ later.2 ≠ earlier.1 := by decide +kernel
  have across : ∀ earlier ∈ put "Set-Cookie" :: before, ∀ later ∈ behind, earlier.1 = none ∨ later.2 ≠ earlier.1 := by
    decide +kernel
  rw [List.append_assoc, List.pairwise_append, List.pairwise_append]
  refine ⟨early, ⟨?_, late, ?_⟩, ?_⟩
  · rw [List.pairwise_replicate]
    right
    right
    exact fun same => by cases same
  · intro earlier member
    rw [List.eq_of_mem_replicate member]
    exact across _ List.mem_cons_self
  · intro earlier member later listed
    rcases List.mem_append.mp listed with cookie | behind
    · rw [List.eq_of_mem_replicate cookie]
      by_cases none : earlier.1 = none
      · exact .inl none
      · exact .inr (Ne.symm none)
    · exact across earlier (List.mem_cons_of_mem _ member) later behind

theorem streamLines_true {succeeds : Bytes → Bool} {lines : List Bytes}
    (streamed : (streamLines succeeds lines).1 = true) : (streamLines succeeds lines).2 = lines := by
  induction lines with
  | nil => rfl
  | cons line rest ih =>
    unfold streamLines at streamed ⊢
    by_cases written : succeeds line = true
    · rw [if_pos written] at streamed ⊢
      exact congrArg _ (ih streamed)
    · rw [if_neg written] at streamed
      cases streamed

theorem streamLines_succeeds (lines : List Bytes) : streamLines (fun _ => true) lines = (true, lines) := by
  induction lines with
  | nil => rfl
  | cons line rest ih => rw [streamLines, if_pos rfl, ih]

/-- A response that is streamed has the lines of the block, and a stream that takes everything gets them. -/
theorem complete_iff : response.Complete random dates ↔
    ((response.configured dates).map fun field => field.line ++ crlf).Subperm
      ((response.calls dates).foldl (BlockCall.follow response.headers.maxOptions) response.headers.fields |>.map
        (fun field => field.line ++ crlf) |>.append [crlf]) := by
  have block := BlockCall.foldl_apply random (response.calls dates) response.keyed (.refl _)
  rw [← serverHeaders_calls] at block
  have lines : ((response.serverHeaders random dates).lines.map (· ++ crlf) ++ [crlf]).Perm
      ((response.calls dates).foldl (BlockCall.follow response.headers.maxOptions) response.headers.fields |>.map
        (fun field => field.line ++ crlf) |>.append [crlf]) := by
    rw [MIMESubHeader.lines_eq, List.map_map]
    exact (block.map _).append_right _
  constructor
  · intro complete
    have streamed := complete (fun _ => true)
    rw [streamServerHeaders, streamLines_succeeds] at streamed
    exact (streamed rfl).trans lines.subperm
  · intro inside succeeds streamed
    rw [streamServerHeaders] at streamed ⊢
    rw [streamLines_true streamed]
    exact inside.trans lines.symm.subperm

/-- Where a call is refused, a header is missing, and nobody is told. -/
theorem response_headers_iff : response.Complete random dates ↔ response.Roomy dates := by
  have lasting := response.calls_lasting dates
  have configured : (response.calls dates).foldl BlockCall.followAll response.headers.fields =
      response.configured dates := by
    rw [BlockCall.foldl_followAll _ lasting, calls_puts, calls_drops]
    rfl
  obtain ⟨whole, less⟩ := @BlockCall.foldl_follow response.headers.maxOptions response.headers.fields _ _ lasting
    (List.Subperm.refl _)
  rw [configured] at whole less
  rw [complete_iff]
  constructor
  · intro complete
    by_contra refused
    have fewer := less refused
    -- The line that ends the block is the line of no field.
    have fieldLine (listed : List Field) : (listed.map fun field => field.line ++ crlf).filter (· ≠ crlf) =
        listed.map fun field => field.line ++ crlf := by
      rw [List.filter_eq_self]
      intro line member
      obtain ⟨field, -, rfl⟩ := List.mem_map.mp member
      have longer : 4 ≤ (field.line ++ crlf).length := by
        simp only [Field.line, crlf, List.length_append, List.length_cons, List.length_nil]
        omega
      rw [decide_eq_true_eq]
      intro same
      rw [same] at longer
      cases Nat.not_succ_le_self _ (Nat.le_trans longer (by decide : crlf.length ≤ 3))
    have matched := complete.filter (· ≠ crlf)
    rw [List.append_eq, List.filter_append, fieldLine, fieldLine, List.filter_singleton] at matched
    have length := matched.length_le
    simp only [ne_eq, not_true_eq_false, decide_false, cond_false, List.append_nil, List.length_map] at length
    omega
  · intro roomy
    rw [whole rfl roomy]
    exact (List.sublist_append_left _ _).subperm

end

/-- A program with 31 headers of its own, and a session. -/
def crowded : ServerResponse where
  headers := MIMESubHeader.built MIMESubHeader.letters 32
    ((List.range 31).map fun number => .add (ascii "X-Part-" ++ MIME.decimal number) (ascii "1"))
  keyed := MIMESubHeader.built_keyed MIMESubHeader.letters 32 _
  streamSize := 5
  transmitionMode := .transmitModeContentLength
  includeServerDate := false
  currentDate := []
  sWWWAuthenticateRealm := []
  cookies := .ofList [(ascii "sessionId", { Cookie.setDefaults with value := ascii "s" })]
  security := ⟨.setDefaults, .setDefaults, .setDefaults, true⟩
  cacheControl := .setDefaults
  contentType := ascii "text/html"

/-- It sends neither the session nor a protection, and all is well. -/
theorem crowded_incomplete : ¬crowded.Complete MIMESubHeader.letters epochTexts ∧
    (crowded.streamServerHeaders MIMESubHeader.letters epochTexts fun _ => true).1 = true ∧
    ∀ line ∈ (crowded.streamServerHeaders MIMESubHeader.letters epochTexts fun _ => true).2,
      ¬ascii "Set-Cookie" <+: line ∧ ¬ascii "X-" <+: line ∨ ascii "X-Part-" <+: line := by
  have sent : (crowded.streamServerHeaders MIMESubHeader.letters epochTexts fun _ => true).2.length = 33 := by
    decide +kernel
  have streamed : (crowded.streamServerHeaders MIMESubHeader.letters epochTexts fun _ => true).1 = true := by
    decide +kernel
  refine ⟨?_, streamed, by decide +kernel⟩
  intro complete
  have length := (complete _ streamed).length_le
  rw [sent] at length
  exact absurd length (by decide +kernel)

end ServerResponse

end Mantids.HTTP.ResponseHeaders
