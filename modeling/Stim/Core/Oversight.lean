import Mathlib.Algebra.Group.Nat.Defs
import Mathlib.Data.List.Basic

/-!
# Oversight

The rules of `packages/core/oversight.ts`: from the state that the last look returned and what
the machine's status says now, the notifications that the machine owes, the state for the next
look and the time at which a timed rule may become due.

Each rule returns what it adds to the run: its notifications, in order, and the time it asks to
be woken at.  Times are milliseconds; `dateParse` is `Date.parse`, `none` for `NaN`.
-/

namespace Stim.Oversight

/-- What a notification is about. -/
inductive Category
  | started | stuck | looping | finished | machine | control | attention
  deriving DecidableEq

/-! ## What the rules read of a status -/

structure Driver where
  tool : String
  since : Option String
  deriving DecidableEq

structure Activity where
  state : String
  driver : Option Driver
  lastActivityAt : Option String
  /-- the latest time of each kind of evidence -/
  recent : Option (List (String × String))
  deriving DecidableEq

structure Device where
  name : Option String
  state : Option String
  physical : Bool
  activity : Option Activity
  deriving DecidableEq

structure Diagnostic where
  file : Option String
  line : Option Int
  deriving DecidableEq

structure Build where
  platform : String
  status : String
  result : Option String
  startedAt : String
  finishedAt : Option String
  errorCode : Option String
  diagnostics : List Diagnostic
  deriving DecidableEq

structure Slot where
  slot : String
  ios : Option Device
  android : Option Device
  deriving DecidableEq

structure Git where
  mergedInto : Option String
  deriving DecidableEq

structure Worktree where
  path : String
  branch : Option String
  repository : Option String
  git : Option Git
  deriving DecidableEq

structure RunningBuild where
  state : String
  startedAt : String
  platform : Option String
  deriving DecidableEq

structure Issue where
  code : String
  severity : String
  message : String
  remedy : String
  slot : Option String
  deriving DecidableEq

structure PhysicalDevice where
  platform : String
  slot : String
  id : String
  name : Option String
  model : Option String
  expiresAt : String
  deriving DecidableEq

structure RemoteDevice where
  sessionId : String
  startedAt : Option String
  deriving DecidableEq

structure Web where
  running : Bool
  activity : Option Activity
  deriving DecidableEq

/-- What there is of each mobile platform. -/
structure ByPlatform (α : Type) where
  ios : α
  android : α
  deriving DecidableEq

/-- The part of a `stim status --json` environment that the rules read; a missing list is an
empty one. -/
structure OversightEnvironment where
  path : String
  live : Bool
  phase : Option String
  ios : Option Device
  android : Option Device
  slots : List Slot
  worktree : Option Worktree
  build : Option RunningBuild
  issues : List Issue
  physicalDevices : List PhysicalDevice
  remoteDevices : List RemoteDevice
  lastBuilds : ByPlatform (Option Build)
  builds : ByPlatform (List Build)
  /-- `logs.errorsSinceMarker` -/
  errorsSinceMarker : Option Nat
  web : Option Web
  deriving DecidableEq

structure UnprovisionedWorktree where
  path : String
  repository : Option String
  deriving DecidableEq

/-- A status; an environment is known by its path. -/
structure OversightStatus where
  environments : List OversightEnvironment
  unprovisionedWorktrees : List UnprovisionedWorktree
  distinct : (environments.map OversightEnvironment.path).Nodup
  deriving DecidableEq

inductive PullRequestState
  | isOpen | merged | closed
  deriving DecidableEq

structure OversightPullRequest where
  number : Nat
  state : PullRequestState
  draft : Bool
  url : String
  deriving DecidableEq

/-- The phone's connection to the machine. -/
inductive Link
  | isOpen | offline | refused | unpaired
  deriving DecidableEq

structure OversightInput where
  machine : String
  /-- `none` when the machine's status is not current -/
  status : Option OversightStatus
  /-- the free bytes of each volume -/
  volumes : Option (List Nat)
  memoryPressure : Option String
  link : Option Link
  /-- a workspace's pull request, `some none` when it has none; `none` was not looked up -/
  pullRequests : String → Option (Option OversightPullRequest)
  ownLeases : List String

structure OversightPrefs where
  categories : List Category
  stuckMinutes : Int
  /-- quiet hours -/
  quiet : Bool

/-! ## Notifications and the state between looks -/

inductive Platform
  | ios | android | web
  deriving DecidableEq

inductive BuildPlatform
  | ios | android
  deriving DecidableEq

def BuildPlatform.name : BuildPlatform → String
  | .ios => "ios"
  | .android => "android"

def ByPlatform.get {α : Type} (each : ByPlatform α) : BuildPlatform → α
  | .ios => each.ios
  | .android => each.android

inductive OversightTarget
  | machine
  | workspace (path : String)
  | device (path : String) (platform : Platform) (slot : String)
  | build (path : String) (platform : BuildPlatform)
  | url (path url : String)
  deriving DecidableEq

structure OversightNotification where
  id : String
  category : Category
  title : String
  body : String
  quiet : Bool
  thread : Option String
  target : OversightTarget
  deriving DecidableEq

structure Loop where
  signature : String
  notified : Bool
  deriving DecidableEq

structure KnownPullRequest where
  number : Nat
  ready : Bool
  merged : Bool
  deriving DecidableEq

structure WorkspaceEntry where
  seenAt : Int
  warmed : Bool
  drove : Bool
  drivenAt : Option Int
  driveNotified : Bool
  errors : Nat
  errorsAt : Option Int
  stuckAt : Option Int
  finished : Bool
  finishedInRun : Bool
  running : Bool
  attention : List String
  attentionRaised : Bool
  loops : ByPlatform (Option Loop)
  /-- `none` before a pull request was looked up -/
  pr : Option (Option KnownPullRequest)
  mergedInto : Option String
  mergeNotified : Bool
  deriving DecidableEq

structure Held where
  since : Int
  notified : Bool
  deriving DecidableEq

structure HeldLink where
  kind : Link
  held : Held
  deriving DecidableEq

structure OversightState where
  workspaces : String → Option WorkspaceEntry
  disk : Option Held
  memory : Option Held
  memoryKnown : Bool
  link : Option HeldLink

structure OversightResult where
  state : OversightState
  notifications : List OversightNotification
  wakeAt : Option Int

def LOW_DISK_BYTES : Nat := 20 * 10 ^ 9
def DISK_CRITICAL_BYTES : Nat := LOW_DISK_BYTES / 4
/-- Free space a low-disk episode needs back before it ends. -/
def DISK_RECOVERED_BYTES : Nat := DISK_CRITICAL_BYTES + 10 ^ 9
def MEMORY_SETTLE_MS : Int := 60000
def OFFLINE_SETTLE_MS : Int := 60000
def FINISH_SETTLE_MS : Int := 5 * 60000
def LOOP_COUNT : Nat := 3
/-- A workspace absent this long is forgotten. -/
def FORGET_MS : Int := 2 * 60000
def EAS_SESSION_MINUTES : Int := 30
def STALE_MS : Int := 24 * 60 * 60 * 1000

/-! ## Names -/

def platformName (platform : String) : String :=
  if platform = "ios" then "iOS" else if platform = "android" then "Android" else platform

/-- `path.split('/')` -/
def splitPath (path : String) : List String := (path.toList.splitOn '/').map String.ofList

def joinPath (parts : List String) : String := "/".intercalate parts

def basename (path : String) : String :=
  ((splitPath path).reverse.find? (· ≠ "")).getD path

def nonEmpty (text : Option String) : Option String := text.filter (· ≠ "")

/-- The last marker of a worktree folder below the first part and above the last: how many parts
stand before it, and where it is. -/
def worktreeMarker (parts : List String) : Option (Nat × Nat) :=
  (List.range (parts.length - 1)).reverse.findSome? fun i =>
    if i = 0 then none
    else if parts[i]? = some ".worktrees" then some (i, i)
    else if parts[i]? = some "worktrees" ∧ parts[i - 1]? = some ".claude" then some (i - 1, i)
    else none

def worktreeRoot (path : String) : Option String :=
  (worktreeMarker (splitPath path)).map fun marker => joinPath ((splitPath path).take marker.1)

def markedCheckout (path : String) : Option String :=
  (worktreeMarker (splitPath path)).map fun marker => joinPath ((splitPath path).take (marker.2 + 2))

def shorter (best : Option String) (root : String) : Option String :=
  match best with
  | none => some root
  | some best => if root.length < best.length then some root else some best

/-- The name home shows for a workspace: its branch, else its checkout's folder. -/
def oversightTitle (env : OversightEnvironment) (status : OversightStatus) : String :=
  match nonEmpty (env.worktree.bind Worktree.branch) with
  | some branch => branch
  | none => match nonEmpty ((env.worktree.map Worktree.path).or (markedCheckout env.path)) with
    | some checkout => basename checkout
    | none =>
        let roots := (status.environments.map fun each =>
            ((worktreeRoot each.path).or (each.worktree.bind Worktree.repository)).getD each.path) ++
          status.unprovisionedWorktrees.filterMap fun each =>
            nonEmpty ((worktreeRoot each.path).or each.repository)
        let own := (worktreeRoot env.path).or (env.worktree.bind Worktree.repository)
        let above := roots.eraseDups.filter fun root =>
          env.path = root || (root ++ "/").isPrefixOf env.path
        basename ((own.or (above.foldl shorter none)).getD env.path)

/-! ## Devices and builds -/

structure SlotDevice where
  platform : Platform
  slot : String
  model : String
  modelLabel : Option String
  running : Bool
  activity : Option Activity
  deriving DecidableEq

/-- `\s` -/
def isSpace (c : Char) : Bool :=
  List.contains ['\t', '\n', '\x0b', '\x0c', '\r', ' ', '\u00a0', '\u1680', '\u2028', '\u2029', '\u202f',
    '\u205f', '\u3000', '\ufeff'] c || ('\u2000' ≤ c && c ≤ '\u200a')

/-- Inside a parenthesis, `inner` in one more: the text up to the parenthesis that closes it,
when only spaces follow. -/
def closingParenthesis (inner : Bool) : List Char → List Char → Option String
  | [], _ => none
  | ')' :: text, read =>
      if inner then closingParenthesis false text (')' :: read)
      else if text.all isSpace then some (.ofList read.reverse)
      else none
  | '(' :: text, read => if inner then none else closingParenthesis true text ('(' :: read)
  | c :: text, read => closingParenthesis inner text (c :: read)

/-- The model in parentheses at the end of a simulator's name:
`/\(([^()]*(?:\([^()]*\)[^()]*)*)\)\s*$/` -/
def simulatorModel : List Char → Option String
  | [] => none
  | '(' :: text => (closingParenthesis false text []).or (simulatorModel text)
  | _ :: text => simulatorModel text

def iosDevice (slot : String) (ios : Device) : SlotDevice :=
  let model := simulatorModel (ios.name.getD "").toList
  { platform := .ios
    slot
    model := model.getD "iOS Simulator"
    modelLabel := if model.isNone then some "ios-simulator" else none
    running := ios.state = some "Booted"
    activity := ios.activity }

def androidDevice (slot : String) (android : Device) : SlotDevice where
  platform := .android
  slot
  model := if android.physical then "Android device" else "Android Emulator"
  modelLabel := some (if android.physical then "android-device" else "android-emulator")
  running := android.state = some "detected"
  activity := android.activity

def webDevice (web : Web) : SlotDevice where
  platform := .web
  slot := "default"
  model := "Chrome"
  modelLabel := some "chrome"
  running := web.running
  activity := web.activity

def slotDevices (slot : String) (ios android : Option Device) : List SlotDevice :=
  (ios.map (iosDevice slot)).toList ++ (android.map (androidDevice slot)).toList

def devicesOf (env : OversightEnvironment) : List SlotDevice :=
  slotDevices "default" env.ios env.android ++
    (env.slots.flatMap fun each => slotDevices each.slot each.ios each.android) ++
    (env.web.map webDevice).toList

def agentDriven (device : SlotDevice) (ownLeases : List String) : Bool :=
  match device.activity with
  | none => false
  | some activity =>
      activity.state = "driven" &&
        !(activity.driver.any fun driver => driver.tool = "stim device lock" &&
          driver.since.any fun since => since ≠ "" && ownLeases.contains since)

/-- Where a failed build stopped: the first diagnostic with a file and a line. -/
def Build.located (build : Build) : Option Diagnostic :=
  build.diagnostics.find? fun each => (nonEmpty each.file).isSome && each.line.isSome

def Build.failed (build : Build) : Bool := build.result.getD build.status = "failed"

structure Cause where
  key : String
  source : Option (String × Int)
  deriving DecidableEq

def causeOf (build : Build) : Cause :=
  match build.located with
  | some ⟨some file, some line⟩ => ⟨file ++ ":" ++ toString line, some (file, line)⟩
  | _ => ⟨build.errorCode.getD "failed", none⟩

structure FailureStreak where
  head : Build
  cause : Cause
  count : Nat
  deriving DecidableEq

/-- The streak of failures at the head of a platform's history that share the newest one's
cause. -/
def failureStreak (history : List Build) : Option FailureStreak :=
  match history with
  | [] => none
  | head :: _ =>
      if !head.failed then none
      else
        let cause := causeOf head
        some ⟨head, cause,
          (history.takeWhile fun build => build.failed && (causeOf build).key = cause.key).length⟩

def isLooping (history : List Build) : Bool :=
  (failureStreak history).any fun streak => LOOP_COUNT ≤ streak.count

/-! ## Texts -/

/-- What an attention item says, before it is put into words. -/
inductive AttentionMessage
  | issue (slot : Option String) (message : String)
  | signing (platform code : String)
  | diagnosticLoop (platform : String) (count : Nat) (file : String) (line : Int)
      (language : Option String)
  | launchLoop (platform : String) (count : Nat)
  | buildLoop (platform : String) (count : Nat) (errorCode : Option String)
  | lease (leased : String)
  | eas (minutes : Int)
  | stuck (minutes : Int) (green : Option String) (model : String) (modelLabel : Option String)
  | disk (freeBytes : Nat)
  deriving DecidableEq

/-- The double nearest to `n / d`, as a fraction. -/
def divideDouble (n d : Nat) : Nat × Nat :=
  let scale := d.log2 + 54
  let bits := (n * 2 ^ scale / d).log2 - 52
  let unit := d * 2 ^ bits
  let quotient := n * 2 ^ scale / unit
  let rest := n * 2 ^ scale % unit
  let rounded :=
    if unit < 2 * rest ∨ (unit = 2 * rest ∧ quotient % 2 = 1) then quotient + 1 else quotient
  (rounded * 2 ^ bits, 2 ^ scale)

/-- `toFixed(1)` of a fraction: the nearest tenth, the larger one of two. -/
def toFixedOne (x : Nat × Nat) : String :=
  let tenths := (20 * x.1 + x.2) / (2 * x.2)
  toString (tenths / 10) ++ "." ++ toString (tenths % 10)

def formatBytes (bytes : Nat) : String :=
  if 10 ^ 12 ≤ bytes then toFixedOne (divideDouble bytes (10 ^ 12)) ++ " TB"
  else
    let gb := divideDouble bytes (10 ^ 9)
    if 100 * gb.2 ≤ gb.1 then toString ((2 * gb.1 + gb.2) / (2 * gb.2)) ++ " GB"
    else toFixedOne gb ++ " GB"

example : formatBytes 4250000000 = "4.3 GB" := by decide +kernel
example : formatBytes 4150000000 = "4.2 GB" := by decide +kernel

def LANGUAGES : List (String × String) :=
  [("swift", "Swift"), ("m", "Objective-C"), ("mm", "Objective-C++"), ("kt", "Kotlin"),
    ("java", "Java"), ("c", "C"), ("cc", "C++"), ("cpp", "C++"), ("h", "C"), ("hpp", "C++"),
    ("js", "JavaScript"), ("ts", "TypeScript"), ("tsx", "TypeScript"), ("gradle", "Gradle"),
    ("kts", "Gradle")]

def languageOf (file : String) : Option String :=
  LANGUAGES.lookup (String.ofList ((file.toList.splitOn '.').getLastD [])).toLower

def afterGreen (platform : Option String) : String :=
  match platform with
  | some platform => " after a green " ++ platformName platform ++ " build"
  | none => ""

def attentionBody : AttentionMessage → String
  | .issue slot message => match nonEmpty slot with
    | some slot => s!"{slot}: {message}"
    | none => message
  | .signing platform code =>
      platformName platform ++ s!" signing or provisioning failed ({code})"
  | .diagnosticLoop platform count file line language =>
      let where' := match language with
        | some language => language ++ " "
        | none => platformName platform ++ " build "
      "Same " ++ where' ++ s!"error {count}x at {file}:{line}"
  | .launchLoop platform count =>
      "App failed to launch on " ++ platformName platform ++ s!" {count}x in a row"
  | .buildLoop platform count errorCode =>
      let code := match nonEmpty errorCode with
        | some code => s!" ({code})"
        | none => ""
      platformName platform ++ s!" build failed {count}x in a row" ++ code
  | .lease leased => s!"Lease on {leased} expired"
  | .eas minutes => s!"EAS session running for {minutes} min with no agent; billed while it runs"
  | .stuck minutes green model _ =>
      s!"No agent activity for {minutes} min" ++ afterGreen green ++ s!"; {model} still up"
  | .disk freeBytes => formatBytes freeBytes ++ " free, below Stim's floor"

/-- What a streak of `count` failures on a platform says. -/
def FailureStreak.message (streak : FailureStreak) (platform : BuildPlatform) :
    AttentionMessage :=
  match streak.cause.source with
  | some (file, line) =>
      .diagnosticLoop platform.name streak.count (basename file) line (languageOf (basename file))
  | none =>
      if streak.head.errorCode = some "STIM_LAUNCH_FAILED" then
        .launchLoop platform.name streak.count
      else .buildLoop platform.name streak.count streak.head.errorCode

/-! ## Times -/

section
variable (dateParse : String → Option Int)

/-- `Date.parse` of a text; `none` is `NaN`. -/
def time (text : Option String) : Option Int := (nonEmpty text).bind dateParse

/-- `a > b`, false when either is `NaN`. -/
def isLater (a b : Option Int) : Bool :=
  match a, b with
  | some a, some b => b < a
  | _, _ => false

/-- `a <= b`, false when either is `NaN`. -/
def isAtMost (a : Option Int) (b : Int) : Bool := a.any (· ≤ b)

def newerBuild (newest : Option Build) (build : Build) : Option Build :=
  match newest with
  | none => some build
  | some other =>
      if isLater (time dateParse build.startedAt) (time dateParse other.startedAt) then some build
      else some other

def newestBuild (env : OversightEnvironment) : Option Build :=
  (env.lastBuilds.ios.toList ++ env.lastBuilds.android.toList).foldl (newerBuild dateParse) none

def WORK_EVIDENCE : List String := ["agent-action", "metro-bundle", "workspace-use"]

def deviceTimes (device : SlotDevice) : List (Option Int) :=
  let recent := device.activity.bind Activity.recent
  (match recent with
    | none => [time dateParse (device.activity.bind Activity.lastActivityAt)]
    | some recent =>
        (WORK_EVIDENCE.map fun basis => time dateParse (recent.lookup basis)) ++
          if device.platform = .web ∧ device.activity.map Activity.state = some "driven" then
            [time dateParse (recent.lookup "page-log")]
          else []) ++
    [time dateParse ((device.activity.bind Activity.driver).bind Driver.since)]

def buildTimes (build : Option Build) : List (Option Int) :=
  [time dateParse (build.map Build.startedAt), time dateParse (build.bind Build.finishedAt)]

def lastActivityAt (env : OversightEnvironment) (devices : List SlotDevice)
    (seen : List (Option Int)) : Option Int :=
  (seen ++ devices.flatMap (deviceTimes dateParse) ++ buildTimes dateParse env.lastBuilds.ios ++
    buildTimes dateParse env.lastBuilds.android ++
    [time dateParse (env.build.map RunningBuild.startedAt)]).reduceOption.max?

/-! ## What needs a person -/

inductive ItemCategory
  | attention | stuck | looping | machine
  deriving DecidableEq

inductive Severity
  | error | warning
  deriving DecidableEq

structure NeedsAttentionItem where
  id : String
  category : ItemCategory
  severity : Severity
  workspace : Option String
  body : String
  remedy : Option String
  deriving DecidableEq

def PERSON_ISSUES : List String :=
  ["port-not-ours", "supervisor-unverified", "browser-unverified", "avd-unchecked"]

def SIGNING_CODES : List String :=
  ["STIM_NO_SIGNING_IDENTITY", "STIM_CODESIGN_FAILED", "STIM_NO_PROFILE", "STIM_PROFILE_MISMATCH"]

/-- Whether a failed run is recent, or its workspace is live. -/
def isRecent (env : OversightEnvironment) (ended : Option String) (now : Int) : Bool :=
  env.live || (time dateParse ended).any fun ended => now - ended < STALE_MS

/-- What a look at a workspace's attention is made of. -/
structure AttentionLook where
  now : Int
  stuckMinutes : Int
  easSessionMinutes : Int
  ownLeases : List String
  format : AttentionMessage → String

variable (look : AttentionLook) (env : OversightEnvironment)

def issueItems : List NeedsAttentionItem :=
  env.issues.filterMap fun issue =>
    if issue.severity = "info" ∨ !PERSON_ISSUES.contains issue.code then none
    else some {
      id := "issue-" ++ issue.code ++ "-" ++ issue.slot.getD "default" ++ ":" ++ env.path
      category := .attention
      severity := if issue.severity = "error" then .error else .warning
      workspace := some env.path
      body := look.format (.issue issue.slot issue.message)
      remedy := some issue.remedy }

/-- The code of a platform's last run that a signing problem failed. -/
def signingCode (platform : BuildPlatform) : Option String :=
  (env.lastBuilds.get platform).bind fun last =>
    let building := env.build.any fun build =>
      build.state = "running" && build.platform = some platform.name
    let code := last.errorCode.getD ""
    if last.status = "failed" && !building && SIGNING_CODES.contains code &&
        isRecent dateParse env (last.finishedAt.or (some last.startedAt)) look.now then some code
    else none

def buildItems (platform : BuildPlatform) : List NeedsAttentionItem :=
  match signingCode dateParse look env platform with
  | some code => [{
      id := "run-" ++ platform.name ++ ":" ++ env.path
      category := .attention
      severity := .error
      workspace := some env.path
      body := look.format (.signing platform.name code)
      remedy := none }]
  | none => match failureStreak (env.builds.get platform) with
    | none => []
    | some streak =>
        if LOOP_COUNT ≤ streak.count ∧ isRecent dateParse env
            (streak.head.finishedAt.or (some streak.head.startedAt)) look.now = true then [{
          id := "looping-" ++ platform.name ++ ":" ++ env.path
          category := .looping
          severity := .error
          workspace := some env.path
          body := look.format (streak.message platform)
          remedy := none }]
        else []

def leaseItems : List NeedsAttentionItem :=
  env.physicalDevices.filterMap fun device =>
    if !isAtMost (time dateParse device.expiresAt) look.now then none
    else some {
      id := "lease-" ++ device.platform ++ "-" ++ device.slot ++ ":" ++ env.path
      category := .attention
      severity := .warning
      workspace := some env.path
      body := look.format (.lease ((device.name.or device.model).getD device.id))
      remedy := some ("stim device unlock " ++ device.platform ++
        if device.slot = "default" then "" else " --slot " ++ device.slot) }

/-- The running device that an agent drives. -/
def drivenDevice : Option SlotDevice :=
  (devicesOf env).find? fun device => device.running && agentDriven device look.ownLeases

/-- When an EAS session has run too long with no agent. -/
def easDue (session : RemoteDevice) : Option Int :=
  (time dateParse session.startedAt).map (· + look.easSessionMinutes * 60000)

def easItem (session : RemoteDevice) : NeedsAttentionItem where
  id := "eas-" ++ session.sessionId ++ ":" ++ env.path
  category := .attention
  severity := .warning
  workspace := some env.path
  body := look.format (.eas ((look.now - (time dateParse session.startedAt).getD 0) / 60000))
  remedy := some "stim stop"

def easItems : List NeedsAttentionItem :=
  if (drivenDevice look env).isSome then []
  else env.remoteDevices.filterMap fun session =>
    if isAtMost (easDue dateParse look session) look.now then some (easItem dateParse look env session)
    else none

def stuckItems : List NeedsAttentionItem :=
  match drivenDevice look env, lastActivityAt dateParse env (devicesOf env) [] with
  | some driven, some since =>
      if env.build.map RunningBuild.state = some "running" ∨
          look.now - since < look.stuckMinutes * 60000 then []
      else [{
        id := "stuck:" ++ env.path
        category := .stuck
        severity := .warning
        workspace := some env.path
        body := look.format (.stuck ((look.now - since) / 60000)
          (((newestBuild dateParse env).filter fun newest => newest.status = "ok" &&
            (newest.platform = "ios" || newest.platform = "android")).map Build.platform)
          driven.model driven.modelLabel)
        remedy := none }]
  | _, _ => []

def attentionItems : List NeedsAttentionItem :=
  issueItems look env ++ buildItems dateParse look env .ios ++ buildItems dateParse look env .android ++
    leaseItems dateParse look env ++ easItems dateParse look env ++ stuckItems dateParse look env

def earliest (a b : Option Int) : Option Int :=
  match a, b with
  | some a, some b => some (min a b)
  | some a, none => some a
  | none, b => b

/-- The times after `now` at which a lease or an EAS session becomes an item. -/
def attentionWakeAt : Option Int :=
  ((env.physicalDevices.map fun device => time dateParse device.expiresAt) ++
    if (drivenDevice look env).isSome then []
    else env.remoteDevices.map (easDue dateParse look)).foldl
      (fun wakeAt due => earliest wakeAt (due.filter (look.now < ·))) none

end

/-- The items of every workspace and the machine, errors first, then the machine's, then live
workspaces' before idle ones'. -/
def needsAttention (dateParse : String → Option Int) (look : AttentionLook)
    (environments : List OversightEnvironment) (volumes : Option (List Nat)) :
    List NeedsAttentionItem :=
  let machine : List (NeedsAttentionItem × Nat) :=
    match (volumes.getD []).min? with
    | some lowest =>
        if lowest < DISK_CRITICAL_BYTES then [({
          id := "machine:disk"
          category := .machine
          severity := .error
          workspace := none
          body := look.format (.disk lowest)
          remedy := none }, 0)]
        else []
    | none => []
  let ranked := machine ++ environments.flatMap fun env =>
    (attentionItems dateParse look env).map fun item => (item, if env.live then 1 else 2)
  let rank (entry : NeedsAttentionItem × Nat) : Nat :=
    (if entry.1.severity = .error then 0 else 3) + entry.2
  (ranked.mergeSort fun a b => rank a ≤ rank b).map Prod.fst

end Stim.Oversight
