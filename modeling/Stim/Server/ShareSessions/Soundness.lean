import Stim.Lib.Utf8
import Stim.Server.ShareSessions

/-!
# The sessions of a share are sound

Control access goes back to a login with the control password, the sessions stay few, a view login
drops no control session, and no window compares more wrong codes than the limit.
-/

namespace Stim.Server

/-! ## What a log says -/

namespace Served

/-- The code a login came with. -/
def presented (e : Served) : Option String :=
  match e.request with
  | .login _ form _ => some (givenCode form)
  | _ => none

/-- The session that a login created, or that it found and may have upgraded. -/
def session (e : Served) : Option String :=
  match e.request, e.response with
  | .login .., .signedIn session _ => some session
  | .login cookie .., .back _ => cookieOf cookie
  | _, _ => none

/-- The session drawn for a login. -/
def drawn (e : Served) : Option String :=
  match e.request with
  | .login _ _ session => some session
  | _ => none

/-- The page gives control. -/
def grantsControl (e : Served) : Bool :=
  match e.response with
  | .viewerPage control _ _ => control
  | _ => false

def cookie (e : Served) : Option String :=
  match e.request with
  | .page cookie => cookieOf cookie
  | .login cookie .. => cookieOf cookie
  | .ends => none

end Served

/-- The answer to a code that was compared and earned nothing. -/
def ShareResponse.wrong (response : ShareResponse) : Bool :=
  response == .back "?upgrade=wrong" || response == .loginPage 401 (some "Wrong access code.")

/-- When wrong codes were compared. -/
def wrongTimes (log : List Served) : List Int :=
  (log.filter fun e => e.response.wrong).map Served.now

/-! ## What a login does -/

section Login

variable {digest : String → List UInt8} {limits : ShareLimits} {share share' : Share} {now : Int}
  {cookie : Option String} {form : List (String × String)} {session : String}
  {response : ShareResponse} {access : ShareAccess} {password : List UInt8}
  {sessions : OrderedMap SessionKey ShareAccess}

/-- The share with the failures of the window before `now`. -/
def Share.forget (limits : ShareLimits) (share : Share) (now : Int) : Share :=
  { share with failures := SlidingWindow.recent limits.failureWindowMs now share.failures }

inductive LoginStep (digest : String → List UInt8) (limits : ShareLimits) (share : Share)
    (now : Int) (cookie : Option String) (form : List (String × String)) (session : String) :
    Share → ShareResponse → Prop
  | ended : LoginStep digest limits share now cookie form session share .ended
  | limited (response : ShareResponse)
      (hResponse : response = .back "?upgrade=limited" ∨
        response = .loginPage 429 (some "Too many wrong access codes. Try again later.")) :
      LoginStep digest limits share now cookie form session (share.forget limits now) response
  | wrong (password : List UInt8) (response : ShareResponse)
      (hRoom : (share.forget limits now).failures.length < limits.maxFailures)
      (hPassword : share.passwordDigest = some password)
      (hEarned : share.earned digest password form = none)
      (hResponse : response = .back "?upgrade=wrong" ∨
        response = .loginPage 401 (some "Wrong access code.")) :
      LoginStep digest limits share now cookie form session
        { share.forget limits now with
          failures := (share.forget limits now).failures ++ [now] } response
  | upgraded (password : List UInt8) (access : ShareAccess) (key : SessionKey) (old : ShareAccess)
      (hPassword : share.passwordDigest = some password)
      (hEarned : share.earned digest password form = some access)
      (hExisting : share.admitViewer digest cookie = some (some (key, old))) :
      LoginStep digest limits share now cookie form session
        (if access = .control then
          { share.forget limits now with sessions := share.sessions.set key .control }
        else share.forget limits now) (.back "")
  | full (viewLogins : List Int) (error : String) :
      LoginStep digest limits share now cookie form session
        { share.forget limits now with viewLogins := viewLogins } (.loginPage 429 (some error))
  | signedIn (password : List UInt8) (access : ShareAccess)
      (sessions : OrderedMap SessionKey ShareAccess) (viewLogins : List Int) (maxAge : Int)
      (hPassword : share.passwordDigest = some password)
      (hEarned : share.earned digest password form = some access)
      (hRoom : makeRoom share.sessions access = some sessions) :
      LoginStep digest limits share now cookie form session
        { share.forget limits now with
          viewLogins := viewLogins
          sessions := sessions.set (sessionKey digest session) access }
        (.signedIn session maxAge)

theorem signIn_step (hPassword : share.passwordDigest = some password)
    (hEarned : share.earned digest password form = some access) :
    LoginStep digest limits share now cookie form session
      ((share.forget limits now).signIn digest limits now session access).1
      ((share.forget limits now).signIn digest limits now session access).2 := by
  -- the view logins of the window, which only a view login forgets
  obtain ⟨recentLogins, hRecent⟩ : ∃ recentLogins : List Int,
      (if access = .view then { share.forget limits now with
        viewLogins := SlidingWindow.recent limits.failureWindowMs now share.viewLogins }
      else share.forget limits now) =
        { share.forget limits now with viewLogins := recentLogins } := by
    split
    · exact ⟨_, rfl⟩
    · exact ⟨share.viewLogins, rfl⟩
  unfold Share.signIn
  dsimp only [Share.forget] at hRecent ⊢
  rw [hRecent]
  split
  · exact .full recentLogins _
  · split
    · exact .full recentLogins _
    · rename_i sessions hRoom
      exact .signedIn password access sessions _ _ hPassword hEarned hRoom

theorem login_step : LoginStep digest limits share now cookie form session
    (share.login digest limits now cookie form session).1
    (share.login digest limits now cookie form session).2 := by
  unfold Share.login
  split
  · exact .ended
  · split
    · exact .ended
    · rename_i password hPassword
      dsimp only
      split
      · refine .limited _ ?_
        split
        · exact .inl rfl
        · exact .inr rfl
      · rename_i hFull
        have hRoom : (share.forget limits now).failures.length < limits.maxFailures :=
          Nat.lt_of_not_le hFull
        split
        · rename_i hEarned
          refine .wrong password _ hRoom hPassword hEarned ?_
          split
          · exact .inl rfl
          · exact .inr rfl
        · rename_i access hEarned
          split
          · rename_i key old hExisting
            exact .upgraded password access key old hPassword hEarned
              (Option.join_eq_some_iff.mp hExisting)
          · exact signIn_step hPassword hEarned

/-! ### Sessions -/

theorem makeRoom_cases (h : makeRoom share.sessions access = some sessions) :
    sessions.entries.length < MAX_SESSIONS ∧ sessions = share.sessions ∨
      ∃ entry ∈ share.sessions.entries, (access = .view → entry.2 = .view) ∧
        sessions = share.sessions.delete entry.1 := by
  unfold makeRoom at h
  split at h
  · cases h
    exact .inl ⟨‹_›, rfl⟩
  · obtain ⟨entry, hOldest, rfl⟩ := Option.map_eq_some_iff.mp h
    refine .inr ⟨entry, ?_, ?_, rfl⟩
    · rcases Option.or_eq_some_iff.mp hOldest with hSame | ⟨-, hFirst⟩
      · exact List.mem_of_find?_eq_some hSame
      · obtain ⟨-, hHead⟩ := Option.ite_none_right_eq_some.mp hFirst
        exact List.mem_of_head? hHead
    · rintro rfl
      rcases Option.or_eq_some_iff.mp hOldest with hSame | ⟨-, hFirst⟩
      · simpa using List.find?_some hSame
      · cases hFirst

variable {key : SessionKey}

/-- Room is made by dropping sessions. -/
theorem get_of_makeRoom (h : makeRoom share.sessions access = some sessions) {old : ShareAccess}
    (hGet : sessions.get key = some old) : share.sessions.get key = some old := by
  rcases makeRoom_cases h with ⟨-, rfl⟩ | ⟨entry, -, -, rfl⟩
  · exact hGet
  · by_cases hKey : key = entry.1
    · rw [hKey, OrderedMap.get_delete_self] at hGet
      cases hGet
    · rwa [OrderedMap.get_delete_of_ne hKey] at hGet

theorem length_of_makeRoom (hSize : share.sessions.entries.length ≤ MAX_SESSIONS)
    (h : makeRoom share.sessions access = some sessions) :
    sessions.entries.length < MAX_SESSIONS := by
  rcases makeRoom_cases h with ⟨hRoom, -⟩ | ⟨entry, hEntry, -, rfl⟩
  · exact hRoom
  · exact Nat.lt_of_lt_of_le
      (OrderedMap.length_entries_delete_lt (List.mem_map_of_mem hEntry)) hSize

/-- A view login drops view sessions only. -/
theorem control_of_makeRoom (h : makeRoom share.sessions .view = some sessions)
    (hGet : share.sessions.get key = some .control) : sessions.get key = some .control := by
  rcases makeRoom_cases h with ⟨-, rfl⟩ | ⟨entry, hEntry, hView, rfl⟩
  · exact hGet
  · by_cases hKey : key = entry.1
    · have hEntryGet := OrderedMap.get_eq_some_iff.mpr hEntry
      rw [← hKey, hGet, hView rfl] at hEntryGet
      cases hEntryGet
    · rwa [OrderedMap.get_delete_of_ne hKey]

/-- A browser is admitted by a session its cookie names. -/
theorem admitViewer_eq {old : ShareAccess}
    (h : share.admitViewer digest cookie = some (some (key, old))) :
    ∃ named, cookieOf cookie = some named ∧ key = sessionKey digest named ∧
      share.sessions.get key = some old := by
  unfold Share.admitViewer at h
  split at h
  · cases h
  · split at h
    · cases h
    · rename_i named hCookie
      obtain ⟨-, hMap⟩ := Option.ite_none_right_eq_some.mp h
      obtain ⟨access, hGet, hEq⟩ := Option.map_eq_some_iff.mp hMap
      cases hEq
      exact ⟨named, hCookie, rfl, hGet⟩

/-- Control is earned with the control password's digest, on a share that allows control. -/
theorem earned_control (h : share.earned digest password form = some .control) :
    digest (givenCode form) = password ∧ share.control = true := by
  obtain ⟨matched, hMatched, hEq⟩ := Option.map_eq_some_iff.mp h
  by_cases hControl : share.control = true
  · rw [if_pos hControl] at hEq
    subst hEq
    refine ⟨?_, hControl⟩
    unfold accessFor at hMatched
    dsimp only at hMatched
    split at hMatched
    · exact eq_of_beq ‹_›
    · split at hMatched <;> cases hMatched
  · rw [if_neg hControl] at hEq
    cases hEq

/-- The session of a control access was there, or the login has the control password. -/
theorem LoginStep.control
    (h : LoginStep digest limits share now cookie form session share' response)
    (hGet : share'.sessions.get key = some .control) :
    share.sessions.get key = some .control ∨
      share.passwordDigest = some (digest (givenCode form)) ∧ share.control = true ∧
        ∃ named, Served.session ⟨now, .login cookie form session, response⟩ = some named ∧
          sessionKey digest named = key := by
  cases h with
  | ended => exact .inl hGet
  | limited => exact .inl hGet
  | wrong => exact .inl hGet
  | full => exact .inl hGet
  | upgraded password access key' old hPassword hEarned hExisting =>
      split at hGet
      · rename_i hControl
        by_cases hKey : key = key'
        · rw [hControl] at hEarned
          obtain ⟨hCode, hAllowed⟩ := earned_control hEarned
          obtain ⟨named, hCookie, hNamed, -⟩ := admitViewer_eq hExisting
          exact .inr ⟨by rw [hPassword, hCode], hAllowed, named, hCookie, (hKey.trans hNamed).symm⟩
        · exact .inl (by rwa [OrderedMap.get_set_of_ne hKey] at hGet)
      · exact .inl hGet
  | signedIn password access sessions viewLogins maxAge hPassword hEarned hRoom =>
      by_cases hKey : key = sessionKey digest session
      · rw [hKey, OrderedMap.get_set_self] at hGet
        cases hGet
        obtain ⟨hCode, hAllowed⟩ := earned_control hEarned
        exact .inr ⟨by rw [hPassword, hCode], hAllowed, session, rfl, hKey.symm⟩
      · rw [OrderedMap.get_set_of_ne hKey] at hGet
        exact .inl (get_of_makeRoom hRoom hGet)

theorem LoginStep.size (h : LoginStep digest limits share now cookie form session share' response)
    (hSize : share.sessions.entries.length ≤ MAX_SESSIONS) :
    share'.sessions.entries.length ≤ MAX_SESSIONS := by
  cases h with
  | ended => exact hSize
  | limited => exact hSize
  | wrong => exact hSize
  | full => exact hSize
  | upgraded password access key old hPassword hEarned hExisting =>
      split
      · obtain ⟨-, -, -, hGet⟩ := admitViewer_eq hExisting
        have hMem : key ∈ share.sessions.keys :=
          OrderedMap.get_isSome_iff.mp (by rw [hGet]; rfl)
        show (share.sessions.set key .control).entries.length ≤ MAX_SESSIONS
        rw [OrderedMap.length_entries_set_of_mem hMem]
        exact hSize
      · exact hSize
  | signedIn password access sessions viewLogins maxAge hPassword hEarned hRoom =>
      exact Nat.le_trans OrderedMap.length_entries_set_le (length_of_makeRoom hSize hRoom)

/-- A session's key was there, or is the one drawn for the login. -/
theorem LoginStep.keys (h : LoginStep digest limits share now cookie form session share' response)
    (hKey : key ∈ share'.sessions.keys) :
    key ∈ share.sessions.keys ∨ key = sessionKey digest session := by
  rw [← OrderedMap.get_isSome_iff] at hKey ⊢
  cases h with
  | ended => exact .inl hKey
  | limited => exact .inl hKey
  | wrong => exact .inl hKey
  | full => exact .inl hKey
  | upgraded password access key' old hPassword hEarned hExisting =>
      split at hKey
      · by_cases hEq : key = key'
        · obtain ⟨-, -, -, hGet⟩ := admitViewer_eq hExisting
          rw [hEq, hGet]
          exact .inl rfl
        · exact .inl (by rwa [OrderedMap.get_set_of_ne hEq] at hKey)
      · exact .inl hKey
  | signedIn password access sessions viewLogins maxAge hPassword hEarned hRoom =>
      by_cases hEq : key = sessionKey digest session
      · exact .inr hEq
      · rw [OrderedMap.get_set_of_ne hEq] at hKey
        obtain ⟨old, hGet⟩ := Option.isSome_iff_exists.mp hKey
        rw [get_of_makeRoom hRoom hGet]
        exact .inl rfl

/-- A login that earns view access drops no control session. -/
theorem LoginStep.keepsControl
    (h : LoginStep digest limits share now cookie form session share' response)
    (hPassword : share.passwordDigest = some password)
    (hEarned : share.earned digest password form = some .view)
    (hFresh : sessionKey digest session ∉ share.sessions.keys)
    (hGet : share.sessions.get key = some .control) : share'.sessions.get key = some .control := by
  cases h with
  | ended => exact hGet
  | limited => exact hGet
  | wrong => exact hGet
  | full => exact hGet
  | upgraded password' access key' old hPassword' hEarned' =>
      split
      · rename_i hControl
        show (share.sessions.set key' .control).get key = _
        rw [OrderedMap.get_set, hGet, ite_self]
      · exact hGet
  | signedIn password' access sessions viewLogins maxAge hPassword' hEarned' hRoom =>
      have hSame : some password = some password' := hPassword.symm.trans hPassword'
      cases hSame
      have hView : some ShareAccess.view = some access := hEarned.symm.trans hEarned'
      cases hView
      have hNe : key ≠ sessionKey digest session := by
        rintro rfl
        exact hFresh (OrderedMap.get_isSome_iff.mp (by rw [hGet]; rfl))
      show (sessions.set (sessionKey digest session) .view).get key = _
      rw [OrderedMap.get_set_of_ne hNe]
      exact control_of_makeRoom hRoom hGet

/-! ### Failures -/

/-- A wrong code is compared only while few failures are recent. -/
theorem LoginStep.failures
    (h : LoginStep digest limits share now cookie form session share' response) :
    response.wrong = true ∧
        (share.forget limits now).failures.length < limits.maxFailures ∧
        share'.failures = (share.forget limits now).failures ++ [now] ∨
      response.wrong = false ∧
        (share'.failures = share.failures ∨
          share'.failures = (share.forget limits now).failures) := by
  cases h with
  | ended => exact .inr ⟨rfl, .inl rfl⟩
  | limited response hResponse =>
      refine .inr ⟨?_, .inr rfl⟩
      rcases hResponse with rfl | rfl <;> decide
  | wrong password response hRoom hPassword hEarned hResponse =>
      refine .inl ⟨?_, hRoom, rfl⟩
      rcases hResponse with rfl | rfl <;> decide
  | upgraded =>
      refine .inr ⟨?_, .inr ?_⟩
      · decide
      · split <;> rfl
  | full viewLogins error => exact .inr ⟨rfl, .inr rfl⟩
  | signedIn => exact .inr ⟨rfl, .inr rfl⟩

/-- No answer to a login is a viewer page. -/
theorem LoginStep.grants
    (h : LoginStep digest limits share now cookie form session share' response) :
    Served.grantsControl ⟨now, .login cookie form session, response⟩ = false := by
  cases h with
  | limited response hResponse => rcases hResponse with rfl | rfl <;> rfl
  | wrong password response hRoom hPassword hEarned hResponse =>
      rcases hResponse with rfl | rfl <;> rfl
  | _ => rfl

theorem LoginStep.same (h : LoginStep digest limits share now cookie form session share' response) :
    share'.control = share.control ∧ share'.passwordDigest = share.passwordDigest := by
  cases h with
  | upgraded => split <;> exact ⟨rfl, rfl⟩
  | _ => exact ⟨rfl, rfl⟩

end Login

/-! ## Runs -/

/-- A page or a login that names the session was served after a login that presented the control
password opened the session or found it. -/
def Opened (control : Bool) (password : String) (before : List Served) (e : Served) : Prop :=
  control = true ∧ ∃ named, e.cookie = some named ∧
    ∃ earlier ∈ before, earlier.presented = some password ∧ earlier.session = some named

structure Sound (digest : String → List UInt8) (limits : ShareLimits) (control : Bool)
    (password : String) (w : ShareWorld) : Prop where
  allowed : w.share.control = control
  passwordDigest : w.share.passwordDigest = some (digest password)
  size : w.share.sessions.entries.length ≤ MAX_SESSIONS
  opened : ∀ key, w.share.sessions.get key = some .control → control = true ∧
    ∃ e ∈ w.log, e.presented = some password ∧
      ∃ named, e.session = some named ∧ sessionKey digest named = key
  drawn : ∀ key ∈ w.share.sessions.keys, ∃ e ∈ w.log, ∃ session,
    e.drawn = some session ∧ sessionKey digest session = key
  bounded : SlidingWindow.Bounded limits.failureWindowMs limits.maxFailures (wrongTimes w.log)
  failures : ∀ later, w.clock ≤ later →
    SlidingWindow.recent limits.failureWindowMs later w.share.failures =
      SlidingWindow.recent limits.failureWindowMs later (wrongTimes w.log)
  granted : ∀ before e after, w.log = before ++ e :: after → e.grantsControl = true →
    Opened control password before e

section Runs

variable {digest : String → List UInt8} {limits : ShareLimits} {control : Bool} {password : String}
  {w w' : ShareWorld}

theorem wrongTimes_append (log : List Served) (e : Served) : wrongTimes (log ++ [e]) =
    if e.response.wrong then wrongTimes log ++ [e.now] else wrongTimes log := by
  unfold wrongTimes
  rw [List.filter_append, List.map_append]
  split
  · rename_i hWrong
    simp [hWrong]
  · rename_i hWrong
    simp [hWrong]

theorem sessionKey_injective (hDigest : Function.Injective digest) :
    Function.Injective (sessionKey digest) := Hex.encode_injective.comp hDigest

/-- A viewer page gives control to a session that has it. -/
theorem page_control {share : Share} {cookie : Option String} {viewOnly upgrade : Bool}
    (hPassword : share.passwordDigest ≠ none)
    (h : share.page digest cookie = .viewerPage true viewOnly upgrade) :
    ∃ named, cookieOf cookie = some named ∧
      share.sessions.get (sessionKey digest named) = some .control := by
  unfold Share.page at h
  split at h
  · cases h
  · split at h
    · cases h
    · rename_i login hAdmit
      have hAccess : share.accessOf login = .control := by
        simpa using (ShareResponse.viewerPage.inj h).1
      cases login with
      | none =>
          exfalso
          unfold Share.admitViewer at hAdmit
          rw [if_neg (by simpa using hPassword)] at hAdmit
          split at hAdmit
          · cases hAdmit
          · obtain ⟨-, hMap⟩ := Option.ite_none_right_eq_some.mp hAdmit
            obtain ⟨access, -, hEq⟩ := Option.map_eq_some_iff.mp hMap
            cases hEq
      | some login =>
          obtain ⟨key, access⟩ := login
          obtain ⟨named, hCookie, rfl, hGet⟩ := admitViewer_eq hAdmit
          unfold Share.accessOf at hAccess
          split at hAccess
          · cases hAccess
            exact ⟨named, hCookie, hGet⟩
          · cases hAccess

theorem sound_new (viewPassword : Option String) (expiresAt clock : Int) :
    Sound digest limits control password
      (.new (.new digest control password viewPassword expiresAt) clock) where
  allowed := rfl
  passwordDigest := rfl
  size := Nat.zero_le _
  opened := fun key hGet => by cases hGet
  drawn := fun key hKey => by cases hKey
  bounded := SlidingWindow.bounded_nil
  failures := fun _ _ => rfl
  granted := by
    intro before e after hLog
    exact absurd hLog (by simp [ShareWorld.new])

/-- An entry is added to the log. -/
theorem granted_append {log : List Served} {e : Served}
    (h : ∀ before e after, log = before ++ e :: after → e.grantsControl = true →
      Opened control password before e)
    (hLast : e.grantsControl = true → Opened control password log e) :
    ∀ before e' after, log ++ [e] = before ++ e' :: after → e'.grantsControl = true →
      Opened control password before e' := by
  intro before e' after hLog hGrants
  rcases List.eq_nil_or_concat after with rfl | ⟨rest, last, rfl⟩
  · obtain ⟨rfl, hEq⟩ := List.append_inj' hLog rfl
    cases hEq
    exact hLast hGrants
  · have hSplit : log ++ [e] = (before ++ e' :: rest) ++ [last] := by
      rw [hLog]
      simp
    obtain ⟨rfl, -⟩ := List.append_inj' hSplit rfl
    exact h before e' rest rfl hGrants

/-- What a login of a sound share does to what is known of its sessions. -/
theorem Sound.login (h : Sound digest limits control password w)
    (hDigest : Function.Injective digest) {now : Int} (hNow : w.clock ≤ now)
    {cookie : Option String} {form : List (String × String)} {session : String} {share : Share}
    {response : ShareResponse}
    (hStep : LoginStep digest limits w.share now cookie form session share response) :
    Sound digest limits control password
      ⟨share, now, w.log ++ [⟨now, .login cookie form session, response⟩]⟩ := by
  obtain ⟨hAllowed, hPassword⟩ := hStep.same
  have hForget : (w.share.forget limits now).failures =
      SlidingWindow.recent limits.failureWindowMs now (wrongTimes w.log) := h.failures now hNow
  refine ⟨hAllowed.trans h.allowed, hPassword.trans h.passwordDigest, hStep.size h.size, ?_, ?_,
    ?_, ?_, ?_⟩
  · intro key hGet
    rcases hStep.control hGet with hOld | ⟨hCode, hControl, named, hNamed, hKey⟩
    · obtain ⟨hAllow, e, he, hRest⟩ := h.opened key hOld
      exact ⟨hAllow, e, List.mem_append_left _ he, hRest⟩
    · refine ⟨h.allowed.symm.trans hControl, _, List.mem_append_right _ (List.mem_singleton_self _),
        ?_, named, hNamed, hKey⟩
      have hSame : digest password = digest (givenCode form) :=
        Option.some.inj (h.passwordDigest.symm.trans hCode)
      rw [hDigest hSame]
      rfl
  · intro key hKey
    rcases hStep.keys hKey with hOld | hNew
    · obtain ⟨e, he, hRest⟩ := h.drawn key hOld
      exact ⟨e, List.mem_append_left _ he, hRest⟩
    · exact ⟨_, List.mem_append_right _ (List.mem_singleton_self _), session, rfl, hNew.symm⟩
  · rw [wrongTimes_append]
    rcases hStep.failures with ⟨hWrong, hRoom, -⟩ | ⟨hRight, -⟩
    · rw [if_pos hWrong]
      rw [hForget] at hRoom
      exact h.bounded.push hRoom
    · rw [if_neg (by simp [hRight])]
      exact h.bounded
  · intro later hLater
    rw [wrongTimes_append]
    rcases hStep.failures with ⟨hWrong, -, hPush⟩ | ⟨hRight, hSame | hForgot⟩
    · rw [if_pos hWrong]
      dsimp only
      rw [hPush, hForget, SlidingWindow.recent_append, SlidingWindow.recent_append,
        SlidingWindow.recent_recent hLater]
    · rw [if_neg (by simp [hRight])]
      dsimp only
      rw [hSame, h.failures later (Int.le_trans hNow hLater)]
    · rw [if_neg (by simp [hRight])]
      dsimp only
      rw [hForgot, hForget, SlidingWindow.recent_recent hLater]
  · refine granted_append h.granted ?_
    rw [hStep.grants]
    intro hFalse
    cases hFalse

/-- A request that is no login changes no session and compares no code. -/
theorem Sound.other (h : Sound digest limits control password w) {now : Int}
    (hNow : w.clock ≤ now) {share : Share} {request : ShareRequest} {response : ShareResponse}
    (hAllowed : share.control = w.share.control)
    (hPassword : share.passwordDigest = w.share.passwordDigest)
    (hSessions : share.sessions = w.share.sessions) (hFailures : share.failures = w.share.failures)
    (hRight : response.wrong = false)
    (hGrants : Served.grantsControl ⟨now, request, response⟩ = true →
      Opened control password w.log ⟨now, request, response⟩) :
    Sound digest limits control password ⟨share, now, w.log ++ [⟨now, request, response⟩]⟩ := by
  have hTimes : wrongTimes (w.log ++ [⟨now, request, response⟩]) = wrongTimes w.log := by
    rw [wrongTimes_append, if_neg (by simp [hRight])]
  refine ⟨hAllowed.trans h.allowed, hPassword.trans h.passwordDigest, ?_, ?_, ?_, ?_, ?_,
    granted_append h.granted hGrants⟩
  · rw [hSessions]
    exact h.size
  · rw [hSessions]
    intro key hGet
    obtain ⟨hAllow, e, he, hRest⟩ := h.opened key hGet
    exact ⟨hAllow, e, List.mem_append_left _ he, hRest⟩
  · rw [hSessions]
    intro key hKey
    obtain ⟨e, he, hRest⟩ := h.drawn key hKey
    exact ⟨e, List.mem_append_left _ he, hRest⟩
  · rw [hTimes]
    exact h.bounded
  · intro later hLater
    rw [hTimes]
    dsimp only
    rw [hFailures, h.failures later (Int.le_trans hNow hLater)]

theorem Sound.step (h : Sound digest limits control password w)
    (hDigest : Function.Injective digest) {action : Int × ShareRequest}
    (hStep : w.step digest limits action = some w') : Sound digest limits control password w' := by
  obtain ⟨hNow, hEq⟩ := Option.ite_none_left_eq_some.mp hStep
  have hClock : w.clock ≤ action.1 := Int.not_lt.mp hNow
  cases hEq
  obtain ⟨now, request⟩ := action
  cases request with
  | page cookie =>
      refine h.other hClock rfl rfl rfl rfl ?_ ?_
      · show ShareResponse.wrong (w.share.page digest cookie) = false
        unfold Share.page
        split
        · rfl
        · split <;> rfl
      · intro hGrants
        have hControl : ∃ viewOnly upgrade,
            w.share.page digest cookie = .viewerPage true viewOnly upgrade := by
          unfold Served.grantsControl at hGrants
          split at hGrants
          · rename_i control' viewOnly upgrade hResponse
            exact ⟨viewOnly, upgrade, by rw [← hGrants]; exact hResponse⟩
          · cases hGrants
        obtain ⟨viewOnly, upgrade, hPage⟩ := hControl
        obtain ⟨named, hCookie, hGet⟩ := page_control (by rw [h.passwordDigest]; simp) hPage
        obtain ⟨hAllow, e, he, hPresented, named', hNamed, hKey⟩ := h.opened _ hGet
        rw [sessionKey_injective hDigest hKey] at hNamed
        exact ⟨hAllow, named, hCookie, e, he, hPresented, hNamed⟩
  | login cookie form session => exact h.login hDigest hClock login_step
  | ends => exact h.other hClock rfl rfl rfl rfl rfl fun hGrants => by cases hGrants

/-- The session that a request draws. -/
def drawnOf (action : Int × ShareRequest) : Option String :=
  match action.2 with
  | .login _ _ session => some session
  | _ => none

theorem Served.drawn_eq {now : Int} {request : ShareRequest} {response : ShareResponse} :
    Served.drawn ⟨now, request, response⟩ = drawnOf (now, request) := by
  cases request <;> rfl

/-- The log holds the requests of the run. -/
theorem drawn_log {actions : List (Int × ShareRequest)} :
    ∀ {w w' : ShareWorld}, Machine.run (ShareWorld.step digest limits) w actions = some w' →
      w'.log.filterMap Served.drawn = w.log.filterMap Served.drawn ++ actions.filterMap drawnOf := by
  induction actions with
  | nil =>
      intro w w' hRun
      cases hRun
      simp
  | cons action actions ih =>
      intro w w' hRun
      obtain ⟨u, hStep, hRest⟩ := Machine.run_cons.mp hRun
      obtain ⟨-, hEq⟩ := Option.ite_none_left_eq_some.mp hStep
      cases hEq
      rw [ih hRest, List.filterMap_append, List.append_assoc]
      refine congrArg _ ?_
      simp only [List.filterMap_cons, List.filterMap_nil, Served.drawn_eq]
      cases drawnOf action <;> rfl

/-- The sessions of a share are sound: control goes back to the control password, the sessions are
few, a view login drops no control session, and no window compares too many wrong codes. -/
theorem shareSessions_sound (hDigest : Function.Injective digest) {viewPassword : Option String}
    {expiresAt clock : Int} {actions : List (Int × ShareRequest)}
    (hDrawn : (actions.filterMap drawnOf).Nodup)
    (hRun : Machine.run (ShareWorld.step digest limits)
      (.new (.new digest control password viewPassword expiresAt) clock) actions = some w) :
    (∀ before e after, w.log = before ++ e :: after → e.grantsControl = true →
      Opened control password before e) ∧
    w.share.sessions.entries.length ≤ MAX_SESSIONS ∧
    (∀ before now cookie form session after u u',
      actions = before ++ (now, .login cookie form session) :: after →
      Machine.run (ShareWorld.step digest limits)
        (.new (.new digest control password viewPassword expiresAt) clock) before = some u →
      u.step digest limits (now, .login cookie form session) = some u' →
      u.share.earned digest (digest password) form = some .view →
        ∀ key, u.share.sessions.get key = some .control →
          u'.share.sessions.get key = some .control) ∧
    ∀ start, (SlidingWindow.within limits.failureWindowMs start (wrongTimes w.log)).length ≤
      limits.maxFailures := by
  have hSound : ∀ {actions w}, Machine.run (ShareWorld.step digest limits)
      (.new (.new digest control password viewPassword expiresAt) clock) actions = some w →
        Sound digest limits control password w := fun hRun =>
    Machine.invariant_run (fun _ _ _ h hStep => h.step hDigest hStep)
      (sound_new viewPassword expiresAt clock) hRun
  have hEnd := hSound hRun
  refine ⟨hEnd.granted, hEnd.size, ?_, hEnd.bounded⟩
  intro before now cookie form session after u u' hActions hBefore hStep hEarned key hGet
  have hu := hSound hBefore
  obtain ⟨-, hEq⟩ := Option.ite_none_left_eq_some.mp hStep
  cases hEq
  refine login_step.keepsControl hu.passwordDigest hEarned ?_ hGet
  -- the session drawn for this login has not been drawn before
  intro hMem
  obtain ⟨e, he, old, hOld, hKey⟩ := hu.drawn _ hMem
  have hSame : old = session := sessionKey_injective hDigest hKey
  have hEarlier : session ∈ before.filterMap drawnOf := by
    have hLog := drawn_log hBefore
    have hIn : session ∈ u.log.filterMap Served.drawn :=
      List.mem_filterMap.mpr ⟨e, he, hSame ▸ hOld⟩
    rwa [hLog] at hIn
  have hLast : drawnOf (now, .login cookie form session) = some session := rfl
  rw [hActions, List.filterMap_append, List.filterMap_cons_some hLast] at hDrawn
  exact (List.nodup_append.mp hDrawn).2.2 session hEarlier session (List.mem_cons_self ..) rfl

end Runs

/-! ### A small share -/

def smallPassword : String := "maple-41-otter"

def smallSession : String := "Q0hJTV9TSEFSRV9UT0tFTl9GT1JfQV9TSEFSRV9TRVN"

def sha256Password : List UInt8 :=
  [39, 157, 72, 158, 224, 60, 190, 136, 224, 5, 41, 38, 79, 5, 171, 242, 185, 146, 54, 229, 130,
    145, 173, 229, 181, 33, 255, 180, 120, 133, 146, 210]

def sha256Session : List UInt8 :=
  [58, 246, 4, 222, 91, 9, 63, 219, 118, 32, 78, 231, 115, 132, 143, 59, 117, 35, 179, 153, 138,
    7, 111, 103, 147, 118, 151, 224, 137, 212, 67, 2]

/-- A digest that knows those of the password and the session; the others are longer. -/
def smallDigest (value : String) : List UInt8 :=
  if value = smallPassword then sha256Password
  else if value = smallSession then sha256Session
  else List.replicate 33 0 ++ Utf8.encode value.toList

theorem smallDigest_injective : Function.Injective smallDigest := by
  have hLong : ∀ value : String,
      32 < (List.replicate 33 0 ++ Utf8.encode value.toList : List UInt8).length := by
    intro value
    rw [List.length_append, List.length_replicate]
    omega
  have hPassword : sha256Password.length = 32 := rfl
  have hSession : sha256Session.length = 32 := rfl
  have hNe : sha256Password ≠ sha256Session := by decide
  intro a b h
  unfold smallDigest at h
  split_ifs at h with ha hb hb' ha' hb hb' hb hb'
  · rw [ha, hb]
  · exact absurd h hNe
  · exact absurd (congrArg List.length h) (by rw [hPassword]; exact Nat.ne_of_lt (hLong b))
  · exact absurd h.symm hNe
  · rw [ha', hb']
  · exact absurd (congrArg List.length h) (by rw [hSession]; exact Nat.ne_of_lt (hLong b))
  · exact absurd (congrArg List.length h) (by rw [hPassword]; exact Nat.ne_of_gt (hLong a))
  · exact absurd (congrArg List.length h) (by rw [hSession]; exact Nat.ne_of_gt (hLong a))
  · have hEncoded := congrArg Utf8.decode (List.append_cancel_left h)
    rw [Utf8.decode_encode, Utf8.decode_encode] at hEncoded
    exact String.toList_injective hEncoded

def smallLimits : ShareLimits := ⟨10, 30, 600000⟩

/-- The browser signs in, and its page gives control. -/
def smallRequests : List (Int × ShareRequest) :=
  [(1000, .page none), (2000, .login none [("access", smallPassword)] smallSession),
    (3000, .page (some ("theme=dark; stim_share=" ++ smallSession)))]

theorem shareSessions_sound_small : ∃ w, Machine.run (ShareWorld.step smallDigest smallLimits)
    (.new (.new smallDigest true smallPassword none 3600000) 0) smallRequests = some w ∧
    w.log.map Served.response = [.loginPage 200 none, .signedIn smallSession 3598,
      .viewerPage true false false] ∧ w.share.sessions.entries.length ≤ MAX_SESSIONS := by
  have hRun : ∃ w, Machine.run (ShareWorld.step smallDigest smallLimits)
      (.new (.new smallDigest true smallPassword none 3600000) 0) smallRequests = some w ∧
        w.log.map Served.response = [.loginPage 200 none, .signedIn smallSession 3598,
          .viewerPage true false false] := ⟨_, rfl, by decide +kernel⟩
  obtain ⟨w, hSome, hResponses⟩ := hRun
  have hSound := shareSessions_sound smallDigest_injective (by decide +kernel) hSome
  exact ⟨w, hSome, hResponses, hSound.2.1⟩

end Stim.Server
