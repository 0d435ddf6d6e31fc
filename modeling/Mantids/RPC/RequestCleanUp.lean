import Mantids.RPC.RequestOutcome

/-! The pool and the session cookie after the clean-up of a request. -/

set_option autoImplicit false

namespace Mantids.RPC

open Auth Threads

/-! ## The jar -/

namespace Cookies

section
variable (cookies : Cookies) (cookieName : String)

theorem get_addCookieVal (other : String) (cookie : Cookie) :
    (addCookieVal cookies cookieName cookie).2.get other =
      if other = cookieName then some ((cookies.get cookieName).getD cookie) else cookies.get other := by
  unfold addCookieVal
  cases found : cookies.get cookieName with
  | none => exact Library.get_insert ..
  | some first =>
    change cookies.get other = _
    by_cases same : other = cookieName
    · rw [if_pos same, same, found]
      rfl
    · rw [if_neg same]

@[simp] theorem get_addClearSecureCookie (path : String) :
    (cookies.addClearSecureCookie cookieName path).get cookieName = some ⟨"", path, true, none⟩ := by
  rw [addClearSecureCookie, get_addCookieVal, if_pos rfl, Library.get_erase_self]
  rfl

@[simp] theorem get_setSecureCookie (value : String) (uMaxAge : Nat) (path : String) :
    (cookies.setSecureCookie cookieName value uMaxAge path).get cookieName =
      some ((cookies.get cookieName).getD ⟨value, path, true, some uMaxAge⟩) := by
  rw [setSecureCookie, get_addCookieVal, if_pos rfl]

end

end Cookies

namespace Handler

/-- The cookie that makes the browser forget its session. -/
def clearingCookie : Cookie := ⟨"", "/", true, none⟩

/-- A request on the session `id` leaves `entry` under that id, the other entries as
they were, and answers with the cookie. -/
structure Leaves (m : SessionsManager) (id : String) (entry : Option (SMapElement WebSession)) (cookie : Cookie)
    (destroy : Bool) (h : Handler) : Prop where
  webSession : h.webSession = some id
  destroy : h.bDestroySession = destroy
  sessions : ∀ other, h.sessionsManager.sessions.get other =
    if other = id then entry else m.sessions.get other
  cookie : h.cookies.get "sessionId" = some cookie

section
variable (m : SessionsManager) (id : String) (s : WebSession) (readers age : Nat) (cookies : Cookies)

theorem sessionRelease_holding (destroy : Bool) :
    sessionRelease { holding m id s readers age cookies with bDestroySession := destroy } =
      { holding m id s readers age cookies with
        sessionsManager := { m with sessions := m.sessions.insert id ⟨some s, readers⟩ }
        bDestroySession := destroy
        cookies := (cookies.addCookieVal "jsSessionTimeout" ⟨"1", "/", false, some age⟩).2.setSecureCookie
          "sessionId" id age "/" } := by
  have released : (holding m id s readers age cookies).sessionsManager.releaseSession id =
      (.yes, { m with sessions := m.sessions.insert id ⟨some s, readers⟩ }) := by
    simp only [holding, SessionsManager.releaseSession, SafeMap.releaseElement, Library.get_insert_self,
      AList.insert_insert]
  unfold sessionRelease
  rw [if_pos (show (holding m id s readers age cookies).bReleaseSessionHandler = true from rfl)]
  have same : (holding m id s readers age cookies).sSessionId = id := rfl
  simp only [same, released]
  rfl

/-- The release writes its cookie unless the jar has one. -/
theorem released_leaves : Leaves m id (some ⟨some s, readers⟩)
    ((cookies.get "sessionId").getD ⟨id, "/", true, some age⟩) false
    (sessionDestroy (sessionRelease (holding m id s readers age cookies))) := by
  have quiet : holding m id s readers age cookies =
      { holding m id s readers age cookies with bDestroySession := false } := rfl
  rw [quiet, sessionRelease_holding]
  refine ⟨rfl, rfl, fun other => Library.get_insert .., ?_⟩
  change Library.Table.get (Cookies.setSecureCookie _ "sessionId" id age "/") "sessionId" = _
  rw [Cookies.get_setSecureCookie, Cookies.get_addCookieVal, if_neg (by decide)]

/-- A destroyed session is gone, or gone for everyone but its other readers. -/
theorem destroyed_leaves : Leaves m id (if readers = 0 then none else some ⟨none, readers⟩) clearingCookie true
    (sessionDestroy (sessionRelease
      { holding m id s readers age cookies with bDestroySession := true })) := by
  rw [sessionRelease_holding]
  refine ⟨rfl, rfl, fun other => ?_, Cookies.get_addClearSecureCookie ..⟩
  have live : ({ m with sessions := m.sessions.insert id ⟨some s, readers⟩ } : SessionsManager).sessions.get id =
      some ⟨some s, readers⟩ := Library.get_insert_self ..
  refine (SessionsManager.get_destroySession live other).trans ?_
  split
  · rfl
  · rename_i different
    rw [Library.get_insert, if_neg different]

/-- With its id forgotten, a session is neither released nor destroyed. -/
theorem refused_leaves (named : WellNamed m.sessions) (nonempty : id ≠ "") :
    Leaves m id (some ⟨some s, readers + 1⟩) clearingCookie true
      (sessionDestroy (sessionRelease
        { holding m id s readers age cookies with sSessionId := "", bDestroySession := true })) := by
  have absent : m.sessions.get "" = none := by
    cases found : m.sessions.get "" with
    | none => rfl
    | some entry => exact absurd rfl (named "" entry found).1
  have unknown : (holding m id s readers age cookies).sessionsManager.sessions.get "" = none := by
    simp [holding, Library.get_insert, nonempty.symm, absent]
  have released : (holding m id s readers age cookies).sessionsManager.releaseSession "" =
      (.no, (holding m id s readers age cookies).sessionsManager) := by
    simp only [SessionsManager.releaseSession, SafeMap.releaseElement, unknown]
  have destroyed : ((holding m id s readers age cookies).sessionsManager.destroySession "").2 =
      (holding m id s readers age cookies).sessionsManager :=
    SessionsManager.destroySession_missing (by simp [unknown])
  unfold sessionRelease
  rw [if_pos (show (holding m id s readers age cookies).bReleaseSessionHandler = true from rfl)]
  simp only [released, sessionDestroy, if_true, destroyed]
  exact ⟨rfl, rfl, fun other => Library.get_insert .., Cookies.get_addClearSecureCookie ..⟩

end

end Handler

end Mantids.RPC
