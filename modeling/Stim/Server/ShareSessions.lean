import Stim.Lib.Machine
import Stim.Lib.OrderedMap
import Stim.Lib.SlidingWindow
import Stim.Lib.Whitespace

/-!
# The sessions of a password-protected share

`login`, `admit` and `accessOf` of `packages/server/src/share.ts` with `makeRoom` and `cookieOf`,
and `accessFor` of `share-identity.ts`: how a browser signs in to a share, and what its page gives
it.  A request has found the share already; the body of a login is the pairs that
`URLSearchParams` reads from it.

The digest is a parameter, and the session that a login would create is drawn by the request.  The
names that viewers choose are left out.
-/

namespace Stim.Server

inductive ShareAccess where
  | view
  | control
  deriving DecidableEq, Repr

structure ShareLimits where
  maxFailures : Nat
  maxViewLogins : Nat
  /-- in milliseconds -/
  failureWindowMs : Int

def MAX_SESSIONS : Nat := 32

def COOKIE : String := "stim_share"

/-! ## Access codes -/

def NO_DIGEST : List UInt8 := List.replicate 32 0

/-- The access `given` earns: the control password's, or the view password's. -/
def accessFor (digest : String → List UInt8) (given : String) (control : List UInt8)
    (view : Option (List UInt8)) : Option ShareAccess :=
  let hash := digest given
  let isControl := hash == control
  let isView := hash == view.getD NO_DIGEST && view.isSome
  if isControl then some .control else if isView then some .view else none

/-- `get` of `URLSearchParams` -/
def formGet (form : List (String × String)) (name : String) : Option String :=
  (form.find? fun pair => pair.1 == name).map Prod.snd

def givenCode (form : List (String × String)) : String :=
  ((formGet form "access").or (formGet form "password")).getD ""

/-! ## Cookies -/

/-- The value of a part of the header that names the cookie: what follows its first `=`. -/
def cookieValue (part : List Char) : Option String :=
  match (Whitespace.trim part).splitOn '=' with
  | name :: value =>
      if String.ofList name = COOKIE then some (String.ofList (['='].intercalate value)) else none
  | [] => none

def cookieOf (header : Option String) : Option String :=
  ((header.getD "").toList.splitOn ';').findSome? cookieValue

/-- `SHARE_TOKEN`: 43 characters of base64url. -/
def isShareToken (session : String) : Bool :=
  session.length == 43 &&
    session.toList.all fun c =>
      ('A' ≤ c && c ≤ 'Z') || ('a' ≤ c && c ≤ 'z') || ('0' ≤ c && c ≤ '9') || c == '_' || c == '-'

/-! ## A share -/

/-- A session is known by its digest in hexadecimal. -/
abbrev SessionKey := List Char

structure Share where
  /-- `request.control` -/
  control : Bool
  passwordDigest : Option (List UInt8)
  viewDigest : Option (List UInt8)
  expiresAt : Int
  sessions : OrderedMap SessionKey ShareAccess
  failures : List Int
  viewLogins : List Int
  ended : Bool

def sessionKey (digest : String → List UInt8) (session : String) : SessionKey :=
  Hex.encode (digest session)

/-- What the server answers, with the page's error and its flags. -/
inductive ShareResponse where
  /-- 404 -/
  | ended
  | viewerPage (control viewOnly upgrade : Bool)
  | loginPage (status : Nat) (error : Option String)
  /-- to the viewer page, with a query -/
  | back (query : String)
  /-- to the viewer page, with the cookie of a new session -/
  | signedIn (session : String) (maxAge : Int)
  deriving DecidableEq, Repr

/-- Makes room for a new session of `access`; `none` when a view login would have to drop a control
session. -/
def makeRoom (sessions : OrderedMap SessionKey ShareAccess) (access : ShareAccess) :
    Option (OrderedMap SessionKey ShareAccess) :=
  if sessions.entries.length < MAX_SESSIONS then some sessions
  else
    let oldest := (sessions.entries.find? fun entry => entry.2 == access).or
      (if access = .control then sessions.entries.head? else none)
    oldest.map fun entry => sessions.delete entry.1

namespace Share

variable (digest : String → List UInt8) (limits : ShareLimits)

/-- The browser's session and its access, or `some none` on a share that needs none; `none` when it
must sign in. -/
def admitViewer (share : Share) (cookie : Option String) : Option (Option (SessionKey × ShareAccess)) :=
  if share.passwordDigest.isNone then some none
  else match cookieOf cookie with
    | none => none
    | some session =>
        if isShareToken session then
          (share.sessions.get (sessionKey digest session)).map fun access =>
            some (sessionKey digest session, access)
        else none

def accessOf (share : Share) (login : Option (SessionKey × ShareAccess)) : ShareAccess :=
  if share.control then (login.map Prod.snd).getD .control else .view

/-- A request for the viewer page. -/
def page (share : Share) (cookie : Option String) : ShareResponse :=
  if share.ended then .ended
  else match share.admitViewer digest cookie with
    | none => .loginPage 200 none
    | some login =>
        let access := share.accessOf login
        .viewerPage (access == .control) (share.control && access == .view)
          (share.control && access == .view && share.viewDigest.isSome)

/-- The access a login earns. -/
def earned (share : Share) (password : List UInt8) (form : List (String × String)) :
    Option ShareAccess :=
  (accessFor digest (givenCode form) password share.viewDigest).map fun matched =>
    if share.control then matched else .view

/-- A login without a session whose code earned `access`, from the view logins on. -/
def signIn (share : Share) (now : Int) (session : String) (access : ShareAccess) :
    Share × ShareResponse :=
  let share := if access = .view then { share with
    viewLogins := SlidingWindow.recent limits.failureWindowMs now share.viewLogins } else share
  if access = .view ∧ limits.maxViewLogins ≤ share.viewLogins.length then
    (share, .loginPage 429 (some "Too many logins. Try again later."))
  else match makeRoom share.sessions access with
    | none => (share, .loginPage 429 (some "Too many sessions are signed in. Try again later."))
    | some sessions =>
        ({ share with
            viewLogins := if access = .view then share.viewLogins ++ [now] else share.viewLogins
            sessions := sessions.set (sessionKey digest session) access },
          .signedIn session (max 1 ((share.expiresAt - now) / 1000)))

def login (share : Share) (now : Int) (cookie : Option String) (form : List (String × String))
    (session : String) : Share × ShareResponse :=
  if share.ended then (share, .ended)
  else match share.passwordDigest with
    | none => (share, .ended)
    | some password =>
        let existing := (share.admitViewer digest cookie).join
        let share := { share with
          failures := SlidingWindow.recent limits.failureWindowMs now share.failures }
        if limits.maxFailures ≤ share.failures.length then
          (share, if existing.isSome then .back "?upgrade=limited"
            else .loginPage 429 (some "Too many wrong access codes. Try again later."))
        else match share.earned digest password form with
          | none =>
              ({ share with failures := share.failures ++ [now] },
                if existing.isSome then .back "?upgrade=wrong"
                else .loginPage 401 (some "Wrong access code."))
          | some access =>
              match existing with
              | some (key, _) =>
                  (if access = .control then
                      { share with sessions := share.sessions.set key .control }
                    else share, .back "")
              | none => share.signIn digest limits now session access

end Share

/-! ## Requests -/

inductive ShareRequest where
  | page (cookie : Option String)
  /-- with the session drawn for it -/
  | login (cookie : Option String) (form : List (String × String)) (session : String)
  /-- the share ends -/
  | ends
  deriving DecidableEq, Repr

structure Served where
  now : Int
  request : ShareRequest
  response : ShareResponse
  deriving DecidableEq, Repr

structure ShareWorld where
  share : Share
  /-- the time of the last request -/
  clock : Int
  log : List Served

/-- A share with a control password, and perhaps a view password. -/
def Share.new (digest : String → List UInt8) (control : Bool) (password : String)
    (viewPassword : Option String) (expiresAt : Int) : Share where
  control := control
  passwordDigest := some (digest password)
  viewDigest := viewPassword.map digest
  expiresAt := expiresAt
  sessions := .empty
  failures := []
  viewLogins := []
  ended := false

def ShareWorld.new (share : Share) (clock : Int) : ShareWorld := ⟨share, clock, []⟩

def Share.serve (digest : String → List UInt8) (limits : ShareLimits) (share : Share) (now : Int) :
    ShareRequest → Share × ShareResponse
  | .page cookie => (share, share.page digest cookie)
  | .login cookie form session => share.login digest limits now cookie form session
  | .ends => ({ share with ended := true }, .ended)

/-- A request at a time that is not before the last one's. -/
def ShareWorld.step (digest : String → List UInt8) (limits : ShareLimits) (w : ShareWorld)
    (action : Int × ShareRequest) : Option ShareWorld :=
  if action.1 < w.clock then none
  else
    let served := w.share.serve digest limits action.1 action.2
    some ⟨served.1, action.1, w.log ++ [⟨action.1, action.2, served.2⟩]⟩

end Stim.Server
