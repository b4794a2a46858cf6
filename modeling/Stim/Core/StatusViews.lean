import Stim.Core.Oversight

/-!
# Workspace summaries

The rows of the workspace list, `packages/core/state/status-views.ts`: an environment of a status
without what only a shown workspace reads.  Fields that a summary copies and that no rule of
oversight reads are mostly left out.
-/

namespace Stim.StatusViews

open Oversight

/-! ## Statuses -/

structure BuildDiagnostic where
  file : Option String
  line : Option Int
  column : Option Int
  message : String
  deriving DecidableEq

structure BuildMissChange where
  source : String
  change : String
  category : String
  deriving DecidableEq

structure BuildMissReason where
  kind : String
  summary : String
  changes : List BuildMissChange
  changeCount : Nat
  rekeyedBy : List String
  deriving DecidableEq

structure BuildCause where
  key : String
  file : Option String
  line : Option Int
  deriving DecidableEq

/-- What a build and its summary share. -/
structure BuildFacts where
  platform : String
  status : String
  /-- `none` is `false` -/
  cacheHit : Option String
  cacheSkipped : Bool
  durationMs : Option Int
  startedAt : String
  finishedAt : Option String
  errorCode : Option String
  buildMachine : Option String
  builtOn : Option String
  offloadedTo : Option String
  offloadFallback : Option String
  cause : Option BuildCause
  deriving DecidableEq

structure LastBuildReport extends BuildFacts where
  fingerprint : Option String
  missReason : Option BuildMissReason
  diagnostics : Option (List BuildDiagnostic)
  deriving DecidableEq

/-- What a run of a history and its summary share. -/
structure RunFacts where
  /-- `none` where a payload leaves it out -/
  result : Option String
  slot : String
  phases : List (String × Int)
  deriving DecidableEq

structure BuildHistoryEntry extends LastBuildReport, RunFacts where
  configuration : Option String
  cacheKey : Option String
  compileSteps : Option Nat
  deriving DecidableEq

structure WorktreeGit where
  changed : Nat
  untracked : Nat
  upstream : Option String
  ahead : Option Nat
  behind : Option Nat
  mergedInto : Option String
  deriving DecidableEq

/-- What a pull request and its summary share. -/
structure PullRequestFacts where
  number : Nat
  url : String
  title : String
  state : String
  deriving DecidableEq

structure WorktreePullRequest extends PullRequestFacts where
  reviewDecision : Option String
  checkedAt : String
  deriving DecidableEq

/-- A worktree whose pull request is of type `α`; `none` was not looked up. -/
structure WorktreeFacts (α : Type) where
  path : String
  branch : Option String
  repository : Option String
  git : Option WorktreeGit
  pullRequest : Option (Option α)
  deriving DecidableEq

structure MacosAppFacts where
  launchId : String
  product : String
  bundle : String
  bundleId : String
  executable : String
  state : String
  deriving DecidableEq

structure MacosAppState extends MacosAppFacts where
  arguments : List String
  deriving DecidableEq

structure Logs where
  dir : String
  errorsSinceMarker : Nat
  deriving DecidableEq

structure AgentDevice where
  stateDir : String
  installed : Option Bool
  deriving DecidableEq

structure LastBuilds (α : Type) where
  ios : Option α
  android : Option α
  deriving DecidableEq

structure Builds (α : Type) where
  ios : Option (List α)
  android : Option (List α)
  macos : Option (List α)
  deriving DecidableEq

/-- What an environment and its summary share. -/
structure EnvironmentFacts where
  path : String
  live : Bool
  phase : Option String
  tutorial : Option Nat
  issues : List Issue
  ios : Option Device
  android : Option Device
  slots : List Slot
  web : Option Web
  remoteDevices : List RemoteDevice
  physicalDevices : List PhysicalDevice
  build : Option RunningBuild
  deriving DecidableEq

structure EnvironmentState extends EnvironmentFacts where
  logs : Option Logs
  lastBuilds : Option (LastBuilds LastBuildReport)
  builds : Option (Builds BuildHistoryEntry)
  macos : Option MacosAppState
  agentDevice : Option AgentDevice
  worktree : Option (WorktreeFacts WorktreePullRequest)
  deriving DecidableEq

/-! ## Summaries -/

structure SummaryBuild extends BuildFacts where
  diagnostics : Option (List BuildDiagnostic)
  deriving DecidableEq

structure SummaryHistoryEntry extends SummaryBuild, RunFacts where
  deriving DecidableEq

/-- `logs` of a summary. -/
structure SummaryLogs where
  errorsSinceMarker : Nat
  deriving DecidableEq

structure WorkspaceSummary extends EnvironmentFacts where
  logs : Option SummaryLogs
  lastBuilds : Option (LastBuilds SummaryBuild)
  builds : Option (Builds SummaryHistoryEntry)
  macos : Option MacosAppFacts
  agentDevice : Option AgentDevice
  worktree : Option (WorktreeFacts PullRequestFacts)
  deriving DecidableEq

/-- Whether a diagnostic has a file and a line. -/
def BuildDiagnostic.isLocated (diagnostic : BuildDiagnostic) : Bool :=
  (nonEmpty diagnostic.file).isSome && diagnostic.line.isSome

def summaryBuild (build : LastBuildReport) : SummaryBuild where
  toBuildFacts := build.toBuildFacts
  diagnostics :=
    (build.diagnostics.bind (·.find? BuildDiagnostic.isLocated)).map fun located => [located]

def summaryHistory (entries : List BuildHistoryEntry) : List SummaryHistoryEntry :=
  let streak := entries.findIdx? fun entry => entry.result ≠ some "failed"
  (entries.take (max 1 (streak.getD entries.length))).map fun entry =>
    { toSummaryBuild := summaryBuild entry.toLastBuildReport, toRunFacts := entry.toRunFacts }

def summaryWorktree (worktree : WorktreeFacts WorktreePullRequest) :
    WorktreeFacts PullRequestFacts where
  path := worktree.path
  branch := worktree.branch
  repository := worktree.repository
  git := worktree.git
  pullRequest :=
    worktree.pullRequest.map fun pullRequest => pullRequest.map WorktreePullRequest.toPullRequestFacts

/-- The summary of one environment of a status payload. -/
def workspaceSummary (environment : EnvironmentState) : WorkspaceSummary where
  toEnvironmentFacts := environment.toEnvironmentFacts
  worktree := environment.worktree.map summaryWorktree
  logs := environment.logs.map fun logs => ⟨logs.errorsSinceMarker⟩
  lastBuilds := environment.lastBuilds.map fun lastBuilds =>
    ⟨lastBuilds.ios.map summaryBuild, lastBuilds.android.map summaryBuild⟩
  builds := environment.builds.map fun builds =>
    ⟨builds.ios.map summaryHistory, builds.android.map summaryHistory,
      builds.macos.map summaryHistory⟩
  macos := environment.macos.map MacosAppState.toMacosAppFacts
  agentDevice := if environment.tutorial.isSome then environment.agentDevice else none

/-! ## What the rules of oversight read of each -/

def readDiagnostic (diagnostic : BuildDiagnostic) : Diagnostic := ⟨diagnostic.file, diagnostic.line⟩

/-- A build as the rules read it. -/
def readBuild (facts : BuildFacts) (result : Option String)
    (diagnostics : Option (List BuildDiagnostic)) : Build where
  platform := facts.platform
  status := facts.status
  result
  startedAt := facts.startedAt
  finishedAt := facts.finishedAt
  errorCode := facts.errorCode
  diagnostics := (diagnostics.getD []).map readDiagnostic

def LastBuildReport.read (build : LastBuildReport) : Build :=
  readBuild build.toBuildFacts none build.diagnostics

def BuildHistoryEntry.read (entry : BuildHistoryEntry) : Build :=
  readBuild entry.toBuildFacts entry.result entry.diagnostics

def SummaryBuild.read (build : SummaryBuild) : Build :=
  readBuild build.toBuildFacts none build.diagnostics

def SummaryHistoryEntry.read (entry : SummaryHistoryEntry) : Build :=
  readBuild entry.toBuildFacts entry.result entry.diagnostics

def readWorktree {α : Type} (worktree : WorktreeFacts α) : Worktree where
  path := worktree.path
  branch := worktree.branch
  repository := worktree.repository
  git := worktree.git.map fun git => ⟨git.mergedInto⟩

/-- An environment as the rules read it, with its builds as they read them. -/
def readEnvironment {α : Type} (facts : EnvironmentFacts) (worktree : Option (WorktreeFacts α))
    (lastBuilds : ByPlatform (Option Build)) (builds : ByPlatform (List Build))
    (errorsSinceMarker : Option Nat) : OversightEnvironment where
  path := facts.path
  live := facts.live
  phase := facts.phase
  ios := facts.ios
  android := facts.android
  slots := facts.slots
  worktree := worktree.map readWorktree
  build := facts.build
  issues := facts.issues
  physicalDevices := facts.physicalDevices
  remoteDevices := facts.remoteDevices
  lastBuilds
  builds
  errorsSinceMarker
  web := facts.web

def EnvironmentState.read (env : EnvironmentState) : OversightEnvironment :=
  readEnvironment env.toEnvironmentFacts env.worktree
    ⟨(env.lastBuilds.bind LastBuilds.ios).map LastBuildReport.read,
      (env.lastBuilds.bind LastBuilds.android).map LastBuildReport.read⟩
    ⟨((env.builds.bind Builds.ios).getD []).map BuildHistoryEntry.read,
      ((env.builds.bind Builds.android).getD []).map BuildHistoryEntry.read⟩
    (env.logs.map Logs.errorsSinceMarker)

def WorkspaceSummary.read (summary : WorkspaceSummary) : OversightEnvironment :=
  readEnvironment summary.toEnvironmentFacts summary.worktree
    ⟨(summary.lastBuilds.bind LastBuilds.ios).map SummaryBuild.read,
      (summary.lastBuilds.bind LastBuilds.android).map SummaryBuild.read⟩
    ⟨((summary.builds.bind Builds.ios).getD []).map SummaryHistoryEntry.read,
      ((summary.builds.bind Builds.android).getD []).map SummaryHistoryEntry.read⟩
    (summary.logs.map SummaryLogs.errorsSinceMarker)

/-- The part of a status payload that the rules read; an environment is known by its path. -/
structure StatusPayload where
  environments : List EnvironmentState
  unprovisionedWorktrees : List (WorktreeFacts WorktreePullRequest)
  distinct : (environments.map fun env => env.path).Nodup

def readUnprovisioned (payload : StatusPayload) : List UnprovisionedWorktree :=
  payload.unprovisionedWorktrees.map fun worktree => ⟨worktree.path, worktree.repository⟩

/-- The status that the rules read in the payload itself. -/
def StatusPayload.full (payload : StatusPayload) : OversightStatus where
  environments := payload.environments.map EnvironmentState.read
  unprovisionedWorktrees := readUnprovisioned payload
  distinct := by rw [List.map_map]; exact payload.distinct

/-- The status that the rules read where every environment is its summary. -/
def StatusPayload.summaries (payload : StatusPayload) : OversightStatus where
  environments := payload.environments.map fun env => (workspaceSummary env).read
  unprovisionedWorktrees := readUnprovisioned payload
  distinct := by rw [List.map_map]; exact payload.distinct

end Stim.StatusViews
