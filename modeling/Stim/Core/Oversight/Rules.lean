import Stim.Core.Oversight

/-!
# The rules of a look

What each rule of `oversee` reads, remembers and emits: the link, the disk and the memory of the
machine, and for each workspace its start, its progress, its build loops, its merge and what in
it needs a person.
-/

namespace Stim.Oversight

/-! ## A look -/

/-- What every rule of a look reads. -/
structure Run where
  input : OversightInput
  prefs : OversightPrefs
  now : Int
  /-- the first look, which records what is true without notifying -/
  baseline : Bool

/-- What a rule adds to the run. -/
structure Emitted where
  notifications : List OversightNotification
  wakeAt : Option Int

def Emitted.nothing : Emitted := ⟨[], none⟩

def Emitted.append (a b : Emitted) : Emitted :=
  ⟨a.notifications ++ b.notifications, earliest a.wakeAt b.wakeAt⟩

def wake (run : Run) (due : Int) : Emitted := ⟨[], if run.now < due then some due else none⟩

/-- Notifies an event now; one missed for quiet hours or a switched-off category is dropped. -/
def event (run : Run) (notification : OversightNotification) : Emitted :=
  if !run.baseline && !run.prefs.quiet && run.prefs.categories.contains notification.category then
    ⟨[notification], none⟩
  else .nothing

/-- Whether a lasting problem is settled: notified now, or dropped when its category is off. -/
def lasting (run : Run) (notification : OversightNotification) : Bool × Emitted :=
  if run.baseline || !run.prefs.categories.contains notification.category then (true, .nothing)
  else if run.prefs.quiet then (false, .nothing)
  else (true, ⟨[notification], none⟩)

def machineNotification (run : Run) (id body : String) : OversightNotification where
  id := "machine:" ++ id
  category := .machine
  title := run.input.machine
  body
  quiet := true
  thread := none
  target := .machine

def LINK_BODY : Link → String
  | .offline => "Offline"
  | .unpaired => "Not paired: pair again"
  | .refused => "Refused the connection: pair again or update"
  | .isOpen => ""

/-- A held problem: notified once it is due, and woken for until then. -/
def settle (run : Run) (held : Held) (due : Int) (notification : OversightNotification) :
    Held × Emitted :=
  if held.notified then (held, .nothing)
  else if run.now < due then (held, wake run due)
  else
    let settled := lasting run notification
    ({ held with notified := settled.1 }, settled.2)

def heldLink (run : Run) (kind : Link) (previous : Option HeldLink) : Held :=
  ((previous.filter (·.kind = kind)).map HeldLink.held).getD ⟨run.now, false⟩

def linkDue (kind : Link) (held : Held) (awakeSince : Int) : Int :=
  max held.since awakeSince + if kind = .offline then OFFLINE_SETTLE_MS else 0

def overseeLink (run : Run) (previous : Option HeldLink) (awakeSince : Int) :
    Option HeldLink × Emitted :=
  match run.input.link.filter (· ≠ .isOpen) with
  | none => (none, .nothing)
  | some kind =>
      let held := heldLink run kind previous
      let settled := settle run held (linkDue kind held awakeSince)
        (machineNotification run "link" (LINK_BODY kind))
      (some ⟨kind, settled.1⟩, settled.2)

/-- The free bytes below which a disk is low: more once it was. -/
def diskFloor (previous : Option Held) : Nat :=
  if previous.isSome then DISK_RECOVERED_BYTES else DISK_CRITICAL_BYTES

def overseeDisk (run : Run) (previous : Option Held) : Option Held × Emitted :=
  match run.input.volumes with
  | none => (previous, .nothing)
  | some volumes => match volumes.min? with
    | none => (none, .nothing)
    | some lowest =>
        if lowest < diskFloor previous then
          let body := formatBytes lowest ++ " free, below Stim's floor"
          let settled := settle run (previous.getD ⟨run.now, false⟩) run.now
            (machineNotification run "disk" body)
          (some settled.1, settled.2)
        else (none, .nothing)

/-- The first reading of the memory pressure records what is true without notifying. -/
def heldMemory (run : Run) (previous : Option Held) (known : Bool) : Held :=
  let held := previous.getD ⟨run.now, false⟩
  if known then held else { held with notified := true }

def overseeMemory (run : Run) (previous : Option Held) (known : Bool) : Option Held × Emitted :=
  match run.input.memoryPressure with
  | none => (previous, .nothing)
  | some pressure =>
      if pressure = "critical" then
        let held := heldMemory run previous known
        let settled := settle run held
          (if run.baseline then run.now else held.since + MEMORY_SETTLE_MS)
          (machineNotification run "memory" "Memory pressure is critical")
        (some settled.1, settled.2)
      else (none, .nothing)

/-- What the rules for one workspace share. -/
structure WorkspaceLook where
  env : OversightEnvironment
  title : String
  devices : List SlotDevice
  driven : List SlotDevice

def WorkspaceLook.notify (look : WorkspaceLook) (run : Run) (category : Category) (body : String)
    (target : OversightTarget) (id : String) : OversightNotification where
  id := id ++ ":" ++ look.env.path
  category
  title := look.title
  body
  quiet := true
  thread := if category = .started then some ("started:" ++ run.input.machine) else none
  target

def deviceTarget (env : OversightEnvironment) (device : SlotDevice) : OversightTarget :=
  .device env.path device.platform device.slot

/-- Whether the workspace has no live session and is not warming. -/
def isIdle (env : OversightEnvironment) : Bool :=
  !env.live && (env.phase = none || env.phase = some "idle")

def overseeWarming (run : Run) (look : WorkspaceLook) (entry : WorkspaceEntry) :
    WorkspaceEntry × Emitted :=
  if look.env.phase = some "warming" ∧ entry.warmed = false then
    ({ entry with warmed := true },
      event run (look.notify run .started ("Warming on " ++ run.input.machine)
        (.workspace look.env.path) "started"))
  else (entry, .nothing)

def overseeDriving (run : Run) (look : WorkspaceLook) (entry : WorkspaceEntry) :
    WorkspaceEntry × Emitted :=
  match look.driven with
  | [] => (entry, .nothing)
  | first :: _ =>
      let driving := { entry with drove := true, drivenAt := some run.now, finished := false }
      if entry.driveNotified then (driving, .nothing)
      else
        let tool := ((first.activity.bind Activity.driver).map Driver.tool).getD "An agent"
        let body := tool ++ " started driving " ++ first.model ++ " on " ++ run.input.machine
        ({ driving with driveNotified := true },
          event run (look.notify run .started body (deviceTarget look.env first) "started"))

def overseeStart (run : Run) (look : WorkspaceLook) (entry : WorkspaceEntry) :
    WorkspaceEntry × Emitted :=
  let warming := overseeWarming run look entry
  let driving := overseeDriving run look warming.1
  (driving.1, warming.2.append driving.2)

section
variable (dateParse : String → Option Int)

/-- The newest build when the agent is gone and it is green. -/
def releasedGreen (look : WorkspaceLook) : Option Build :=
  if look.driven = [] then (newestBuild dateParse look.env).filter (·.status = "ok") else none

def isBuilding (env : OversightEnvironment) : Bool :=
  env.build.map RunningBuild.state = some "running"

def quietSince (look : WorkspaceLook) (entry : WorkspaceEntry) : Option Int :=
  lastActivityAt dateParse look.env look.devices
    [entry.errorsAt, if look.driven = [] then entry.drivenAt else none]

/-- New activity ends a stuck episode. -/
def clearStuck (since : Option Int) (entry : WorkspaceEntry) : WorkspaceEntry :=
  if isLater since entry.stuckAt then { entry with stuckAt := none } else entry

/-- Work finishes when the agent stops after a green build. -/
def overseeFinish (run : Run) (look : WorkspaceLook) (since : Option Int)
    (entry : WorkspaceEntry) : WorkspaceEntry × Emitted :=
  match releasedGreen dateParse look, since with
  | some newest, some since =>
      if entry.drove = false ∨ isBuilding look.env = true ∨ entry.finished = true then
        (entry, .nothing)
      else if isIdle look.env = false ∧ run.now < since + FINISH_SETTLE_MS then
        (entry, wake run (since + FINISH_SETTLE_MS))
      else if entry.finishedInRun then ({ entry with finished := true }, .nothing)
      else
        let body := "Agent stopped after a green " ++ platformName newest.platform ++ " build"
        ({ entry with finished := true, finishedInRun := true },
          event run (look.notify run .finished body (.workspace look.env.path) "finished"))
  | _, _ => (entry, .nothing)

/-- What the end of a drive and of a run reset. -/
def endRun (env : OversightEnvironment) (entry : WorkspaceEntry) : WorkspaceEntry :=
  let ended := if isIdle env || entry.finished then
    { entry with drove := false, driveNotified := false } else entry
  if isIdle env then { ended with warmed := false, finished := false, finishedInRun := false }
  else ended

/-- The running device that a stuck agent would leave up. -/
def stuckDevice (look : WorkspaceLook) : Option SlotDevice :=
  (look.driven.head?.or (look.devices.find? SlotDevice.running)).filter SlotDevice.running

/-- Work looks stuck when nothing happens for too long. -/
def overseeStuck (run : Run) (look : WorkspaceLook) (since : Option Int)
    (entry : WorkspaceEntry) : WorkspaceEntry × Emitted :=
  match stuckDevice look, since with
  | some device, some since =>
      if entry.drove = false ∨ isBuilding look.env = true ∨
          (releasedGreen dateParse look).isSome = true ∨ entry.stuckAt.isSome = true then
        (entry, .nothing)
      else if run.now < since + run.prefs.stuckMinutes * 60000 then
        (entry, wake run (since + run.prefs.stuckMinutes * 60000))
      else
        let minutes := (run.now - since) / 60000
        let green := (newestBuild dateParse look.env).filter (·.status = "ok")
        let body := "No agent activity for " ++ toString minutes ++ " min" ++
          afterGreen (green.map Build.platform) ++ "; " ++ device.model ++ " still up"
        let settled :=
          lasting run (look.notify run .stuck body (deviceTarget look.env device) "stuck")
        (if settled.1 then { entry with stuckAt := some since } else entry, settled.2)
  | _, _ => (entry, .nothing)

def overseeProgress (run : Run) (look : WorkspaceLook) (entry : WorkspaceEntry) :
    WorkspaceEntry × Emitted :=
  let since := quietSince dateParse look entry
  let finishing := overseeFinish dateParse run look since (clearStuck since entry)
  let sticking := overseeStuck dateParse run look since (endRun look.env finishing.1)
  (sticking.1, finishing.2.append sticking.2)

end

def overseeLoop (run : Run) (look : WorkspaceLook) (platform : BuildPlatform)
    (before : Option Loop) : Option Loop × Emitted :=
  match failureStreak (look.env.builds.get platform) with
  | none => (none, .nothing)
  | some streak =>
      let loop := (before.filter fun before =>
        before.signature = streak.cause.key && LOOP_COUNT ≤ streak.count).getD
          ⟨streak.cause.key, false⟩
      if streak.count < LOOP_COUNT ∨ loop.notified = true then (some loop, .nothing)
      else
        let settled := lasting run (look.notify run .looping
          (attentionBody (streak.message platform)) (.build look.env.path platform)
          ("looping-" ++ platform.name))
        (some { loop with notified := settled.1 }, settled.2)

def overseeLoops (run : Run) (look : WorkspaceLook) (prev : Option WorkspaceEntry)
    (entry : WorkspaceEntry) : WorkspaceEntry × Emitted :=
  let ios := overseeLoop run look .ios (prev.bind fun prev => prev.loops.ios)
  let android := overseeLoop run look .android (prev.bind fun prev => prev.loops.android)
  ({ entry with loops := ⟨ios.1, android.1⟩ }, ios.2.append android.2)

def KnownPullRequest.of (pr : OversightPullRequest) : KnownPullRequest where
  number := pr.number
  ready := pr.state = .isOpen && !pr.draft
  merged := pr.state = .merged

/-- A pull request that became ready for review or merged. -/
def overseePullRequest (run : Run) (look : WorkspaceLook) (entry : WorkspaceEntry) :
    WorkspaceEntry × Emitted :=
  match run.input.pullRequests look.env.path with
  | none => (entry, .nothing)
  | some none => ({ entry with pr := some none }, .nothing)
  | some (some pr) =>
      let current := KnownPullRequest.of pr
      let recorded := { entry with pr := some (some current) }
      match entry.pr with
      | none => ({ recorded with mergeNotified := entry.mergeNotified || current.merged }, .nothing)
      | some known =>
          let same := known.filter (·.number = pr.number)
          let number := toString pr.number
          let ready := if current.ready && !(same.any KnownPullRequest.ready) then
            event run (look.notify run .finished ("PR #" ++ number ++ " is ready for review")
              (.url look.env.path pr.url) "finished") else .nothing
          if current.merged && !(same.any KnownPullRequest.merged) && !entry.mergeNotified then
            ({ recorded with mergeNotified := true },
              ready.append (event run (look.notify run .finished ("PR #" ++ number ++ " merged")
                (.url look.env.path pr.url) "finished")))
          else (recorded, ready)

/-- Without GitHub, a branch that git finds merged. -/
def overseeBranch (run : Run) (look : WorkspaceLook) (prev : Option WorkspaceEntry)
    (entry : WorkspaceEntry) : WorkspaceEntry × Emitted :=
  match prev, entry.mergedInto with
  | none, none => (entry, .nothing)
  | none, some _ => ({ entry with mergeNotified := true }, .nothing)
  | some _, none =>
      if (look.env.worktree.bind Worktree.git).isSome ∧
          (entry.pr.any fun pr => pr.any KnownPullRequest.merged) = false then
        ({ entry with mergeNotified := false }, .nothing)
      else (entry, .nothing)
  | some prev, some branch =>
      if prev.mergedInto = none ∧ entry.mergeNotified = false then
        ({ entry with mergeNotified := true },
          event run (look.notify run .finished ("Merged into " ++ branch)
            (.workspace look.env.path) "finished"))
      else (entry, .nothing)

def overseeMerge (run : Run) (look : WorkspaceLook) (prev : Option WorkspaceEntry)
    (entry : WorkspaceEntry) : WorkspaceEntry × Emitted :=
  let onGitHub := overseePullRequest run look entry
  let onGit := overseeBranch run look prev onGitHub.1
  (onGit.1, onGitHub.2.append onGit.2)

section
variable (dateParse : String → Option Int)

def Run.attentionLook (run : Run) : AttentionLook where
  now := run.now
  stuckMinutes := run.prefs.stuckMinutes
  easSessionMinutes := EAS_SESSION_MINUTES
  ownLeases := run.input.ownLeases
  format := attentionBody

/-- What an attention item opens, unless a loop covers it. -/
def itemTarget (env : OversightEnvironment) (item : NeedsAttentionItem) :
    Option OversightTarget :=
  if "run-".isPrefixOf item.id then
    let platform := if "run-ios".isPrefixOf item.id then BuildPlatform.ios else .android
    if isLooping (env.builds.get platform) then none else some (.build env.path platform)
  else some (.workspace env.path)

def pendingItems (run : Run) (env : OversightEnvironment) :
    List (NeedsAttentionItem × OversightTarget) :=
  (attentionItems dateParse run.attentionLook env).filterMap fun item =>
    if item.category ≠ .attention then none else (itemTarget env item).map fun target => (item, target)

/-- What the items so far left: the ids recorded as notified, and whether one was raised. -/
structure Raised where
  attention : List String
  raised : Bool
  emitted : Emitted

def overseeItem (run : Run) (look : WorkspaceLook) (known : List String) (sofar : Raised)
    (pending : NeedsAttentionItem × OversightTarget) : Raised :=
  if known.contains pending.1.id || sofar.raised then
    { sofar with attention := sofar.attention ++ [pending.1.id] }
  else
    let settled := lasting run
      { look.notify run .attention pending.1.body pending.2 "attention" with id := pending.1.id }
    { attention := if settled.1 then sofar.attention ++ [pending.1.id] else sofar.attention
      raised := settled.1 && !settled.2.notifications.isEmpty
      emitted := sofar.emitted.append settled.2 }

/-- What only a person can fix, notified once per episode and at most once per workspace and
run. -/
def overseeAttention (run : Run) (look : WorkspaceLook) (prev : Option WorkspaceEntry)
    (entry : WorkspaceEntry) : WorkspaceEntry × Emitted :=
  let woken := match attentionWakeAt dateParse run.attentionLook look.env with
    | some due => wake run due
    | none => .nothing
  let pending := pendingItems dateParse run look.env
  let raised := entry.attentionRaised &&
    !(pending.isEmpty || (!isIdle look.env && !(prev.any WorkspaceEntry.running)))
  let known := (prev.map WorkspaceEntry.attention).getD []
  let after := pending.foldl (overseeItem run look known) ⟨[], raised, .nothing⟩
  ({ entry with attention := after.attention, attentionRaised := after.raised },
    woken.append after.emitted)

/-- The entry that a look starts from. -/
def openEntry (run : Run) (env : OversightEnvironment) (prev : Option WorkspaceEntry) :
    WorkspaceEntry where
  seenAt := run.now
  warmed := prev.any WorkspaceEntry.warmed
  drove := prev.any WorkspaceEntry.drove
  drivenAt := prev.bind WorkspaceEntry.drivenAt
  driveNotified := prev.any WorkspaceEntry.driveNotified
  errors := env.errorsSinceMarker.getD 0
  errorsAt := match prev with
    | none => none
    | some prev =>
        if prev.errors ≠ env.errorsSinceMarker.getD 0 then some run.now else prev.errorsAt
  stuckAt := prev.bind WorkspaceEntry.stuckAt
  finished := prev.any WorkspaceEntry.finished
  finishedInRun := prev.any WorkspaceEntry.finishedInRun
  running := !isIdle env
  attention := []
  attentionRaised := prev.any WorkspaceEntry.attentionRaised
  loops := ⟨none, none⟩
  pr := prev.bind WorkspaceEntry.pr
  mergedInto := match env.worktree.bind Worktree.git with
    | some git => git.mergedInto
    | none => prev.bind WorkspaceEntry.mergedInto
  mergeNotified := prev.any WorkspaceEntry.mergeNotified

def workspaceLook (run : Run) (env : OversightEnvironment) (status : OversightStatus) :
    WorkspaceLook where
  env
  title := oversightTitle env status
  devices := devicesOf env
  driven := (devicesOf env).filter fun device => agentDriven device run.input.ownLeases

def overseeWorkspace (run : Run) (env : OversightEnvironment) (status : OversightStatus)
    (prev : Option WorkspaceEntry) : WorkspaceEntry × Emitted :=
  let look := workspaceLook run env status
  let start := overseeStart run look (openEntry run env prev)
  let progress := overseeProgress dateParse run look start.1
  let loops := overseeLoops run look prev progress.1
  let merge := overseeMerge run look prev loops.1
  let attention := overseeAttention dateParse run look prev merge.1
  (attention.1, start.2.append (progress.2.append (loops.2.append (merge.2.append attention.2))))

/-- The entries after a look: those of the status, and those seen within the last two minutes. -/
def keptWorkspaces (now : Int) (looked : List (String × WorkspaceEntry))
    (previous : String → Option WorkspaceEntry) (path : String) : Option WorkspaceEntry :=
  (looked.lookup path).or ((previous path).filter fun entry => now - entry.seenAt < FORGET_MS)

/-- The entry of a workspace in the state of the last look. -/
def entryBefore (previous : Option OversightState) (path : String) : Option WorkspaceEntry :=
  previous.bind fun state => state.workspaces path

def overseeWorkspaces (run : Run) (previous : Option OversightState) :
    List (String × WorkspaceEntry × Emitted) :=
  match run.input.status with
  | none => []
  | some status => status.environments.map fun env =>
      (env.path, overseeWorkspace dateParse run env status (entryBefore previous env.path))

def overseeRun (run : Run) (previous : Option OversightState) (awakeSince : Int) :
    OversightState × Emitted :=
  let link := overseeLink run (previous.bind OversightState.link) awakeSince
  let disk := overseeDisk run (previous.bind OversightState.disk)
  let memory := overseeMemory run (previous.bind OversightState.memory)
    (previous.any OversightState.memoryKnown)
  let looked := overseeWorkspaces dateParse run previous
  ({ workspaces := if run.input.status.isNone then entryBefore previous
      else keptWorkspaces run.now (looked.map fun each => (each.1, each.2.1)) (entryBefore previous)
     disk := disk.1
     memory := memory.1
     memoryKnown := run.input.memoryPressure.isSome || previous.any OversightState.memoryKnown
     link := link.1 },
    link.2.append (disk.2.append (memory.2.append
      (looked.foldr (fun each rest => each.2.2.append rest) .nothing))))

/-- The notifications a machine owes since `previous`, the state the last call returned; `none`
records what is already true without notifying. -/
def oversee (previous : Option OversightState) (input : OversightInput) (prefs : OversightPrefs)
    (now awakeSince : Int) : OversightResult :=
  let looked := overseeRun dateParse ⟨input, prefs, now, previous.isNone⟩ previous awakeSince
  ⟨looked.1, looked.2.notifications, looked.2.wakeAt⟩

end

end Stim.Oversight
