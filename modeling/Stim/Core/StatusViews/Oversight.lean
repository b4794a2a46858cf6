import Stim.Core.Oversight.Rules
import Stim.Core.StatusViews

/-!
# Oversight of summaries

The rules of oversight find in the summaries of a status what they find in the status itself: a
summary keeps every failure that a streak counts, where it failed, and whatever else is read.
-/

namespace Stim.StatusViews

open Oversight

/-! ## Summaries as the rules read them -/

/-- A build with only the diagnostic that says where it stopped. -/
def kept (build : Build) : Build := { build with diagnostics := build.located.toList }

/-- The newest run and, while it failed, every failure right before it. -/
def keptHistory (history : List Build) : List Build :=
  let streak := history.findIdx? fun build => build.result ≠ some "failed"
  (history.take (max 1 (streak.getD history.length))).map kept

def keptEnvironment (env : OversightEnvironment) : OversightEnvironment :=
  { env with
    lastBuilds := ⟨env.lastBuilds.ios.map kept, env.lastBuilds.android.map kept⟩
    builds := ⟨keptHistory env.builds.ios, keptHistory env.builds.android⟩ }

theorem located_read (diagnostics : Option (List BuildDiagnostic)) :
    ((diagnostics.getD []).map readDiagnostic).find?
        (fun each => (nonEmpty each.file).isSome && each.line.isSome) =
      (diagnostics.bind (·.find? BuildDiagnostic.isLocated)).map readDiagnostic := by
  cases diagnostics with
  | none => rfl
  | some diagnostics =>
      rw [Option.getD_some, List.find?_map]
      rfl

theorem read_summaryBuild (facts : BuildFacts) (result : Option String) (build : LastBuildReport) :
    readBuild facts result (summaryBuild build).diagnostics =
      kept (readBuild facts result build.diagnostics) := by
  have hlocated : ((summaryBuild build).diagnostics.getD []).map readDiagnostic =
      (readBuild facts result build.diagnostics).located.toList := by
    unfold Build.located readBuild
    rw [located_read]
    unfold summaryBuild
    dsimp only
    cases build.diagnostics.bind (·.find? BuildDiagnostic.isLocated) <;> rfl
  unfold kept readBuild
  rw [hlocated]
  rfl

theorem read_summaryHistory (history : List BuildHistoryEntry) :
    (summaryHistory history).map SummaryHistoryEntry.read =
      keptHistory (history.map BuildHistoryEntry.read) := by
  unfold summaryHistory keptHistory
  simp only [List.findIdx?_map, List.length_map, ← List.map_take, List.map_map]
  refine List.map_congr_left fun entry _ => ?_
  exact read_summaryBuild entry.toBuildFacts entry.result entry.toLastBuildReport

theorem read_workspaceSummary (env : EnvironmentState) :
    (workspaceSummary env).read = keptEnvironment env.read := by
  have hlast : ∀ last : Option LastBuildReport,
      (last.map summaryBuild).map SummaryBuild.read = (last.map LastBuildReport.read).map kept := by
    rintro (_ | last)
    · rfl
    · exact congrArg some (read_summaryBuild last.toBuildFacts none last)
  have hhistory : ∀ history : Option (List BuildHistoryEntry),
      ((history.map summaryHistory).getD []).map SummaryHistoryEntry.read =
        keptHistory ((history.getD []).map BuildHistoryEntry.read) := by
    rintro (_ | history)
    · rfl
    · exact read_summaryHistory history
  have hlasts : (workspaceSummary env).read.lastBuilds = (keptEnvironment env.read).lastBuilds := by
    unfold workspaceSummary WorkspaceSummary.read keptEnvironment EnvironmentState.read
    cases env.lastBuilds with
    | none => rfl
    | some lastBuilds => exact congrArg₂ ByPlatform.mk (hlast _) (hlast _)
  have hbuilds : (workspaceSummary env).read.builds = (keptEnvironment env.read).builds := by
    unfold workspaceSummary WorkspaceSummary.read keptEnvironment EnvironmentState.read
    cases env.builds with
    | none => rfl
    | some builds => exact congrArg₂ ByPlatform.mk (hhistory _) (hhistory _)
  have hworktree : (workspaceSummary env).read.worktree = (keptEnvironment env.read).worktree := by
    unfold workspaceSummary WorkspaceSummary.read keptEnvironment EnvironmentState.read
    cases env.worktree <;> rfl
  have hlogs : (workspaceSummary env).read.errorsSinceMarker =
      (keptEnvironment env.read).errorsSinceMarker := by
    unfold workspaceSummary WorkspaceSummary.read keptEnvironment EnvironmentState.read
    cases env.logs <;> rfl
  calc (workspaceSummary env).read
      = { env.read with
          lastBuilds := (workspaceSummary env).read.lastBuilds
          builds := (workspaceSummary env).read.builds
          worktree := (workspaceSummary env).read.worktree
          errorsSinceMarker := (workspaceSummary env).read.errorsSinceMarker } := rfl
    _ = keptEnvironment env.read := by
        rw [hlasts, hbuilds, hworktree, hlogs]
        rfl

/-! ## What the rules compute from a build, a history and an environment -/

theorem located_kept (build : Build) : (kept build).located = build.located := by
  show build.located.toList.find? _ = build.located
  cases hlocated : build.located with
  | none => rfl
  | some each =>
      have := List.find?_some hlocated
      simp [this]

theorem causeOf_kept (build : Build) : causeOf (kept build) = causeOf build := by
  unfold causeOf
  rw [located_kept]
  rfl

/-- A streak as the rules find it in a summary. -/
def keptStreak (streak : FailureStreak) : FailureStreak := { streak with head := kept streak.head }

/-- Every run of a history carries a result. -/
def HasResults (history : List Build) : Prop := ∀ build ∈ history, build.result ≠ none

theorem failed_of_result {build : Build} (hresult : build.result ≠ none) :
    build.failed = decide (build.result = some "failed") := by
  unfold Build.failed
  cases hsome : build.result with
  | none => exact absurd hsome hresult
  | some result => simp

theorem keptHistory_cons (head : Build) (rest : List Build) :
    ∃ tail, keptHistory (head :: rest) = kept head :: tail := by
  unfold keptHistory
  dsimp only
  generalize ((head :: rest).findIdx? _).getD (head :: rest).length = streak
  obtain ⟨n, hn⟩ : ∃ n, max 1 streak = n + 1 := ⟨max 1 streak - 1, by omega⟩
  rw [hn]
  exact ⟨_, rfl⟩

theorem keptHistory_failed {head : Build} {rest : List Build}
    (hhead : head.result = some "failed") :
    keptHistory (head :: rest) =
      ((head :: rest).takeWhile fun build => build.result = some "failed").map kept := by
  have hpositive : 1 ≤ (head :: rest).findIdx fun build => build.result ≠ some "failed" := by
    simp [List.findIdx_cons, hhead]
  unfold keptHistory
  dsimp only
  rw [List.takeWhile_eq_take_findIdx_not, ← List.findIdx_eq_getD_findIdx?,
    Nat.max_eq_right hpositive]
  simp only [ne_eq, decide_not]

/-- The runs of a streak are failures, so a summary keeps them all. -/
theorem takeWhile_kept (cause : String) {history : List Build} (hresults : HasResults history) :
    (((history.takeWhile fun build => build.result = some "failed").map kept).takeWhile
        fun build => build.failed && (causeOf build).key = cause).length =
      (history.takeWhile fun build => build.failed && (causeOf build).key = cause).length := by
  induction history with
  | nil => rfl
  | cons head rest ih =>
      have hhead := failed_of_result (hresults head List.mem_cons_self)
      have hrest := ih fun build hbuild => hresults build (List.mem_cons_of_mem _ hbuild)
      have hkept : (kept head).failed = head.failed := rfl
      by_cases hfailed : head.result = some "failed"
      · rw [List.takeWhile_cons_of_pos (by simpa using hfailed), List.map_cons,
          List.takeWhile_cons, List.takeWhile_cons, hkept, causeOf_kept]
        split
        · rw [List.length_cons, List.length_cons, hrest]
        · rfl
      · simp [hhead, hfailed]

theorem failureStreak_kept {history : List Build} (hresults : HasResults history) :
    failureStreak (keptHistory history) = (failureStreak history).map keptStreak := by
  cases history with
  | nil => rfl
  | cons head rest =>
      have hhead := failed_of_result (hresults head List.mem_cons_self)
      by_cases hfailed : head.result = some "failed"
      · have hcount := takeWhile_kept (causeOf head).key hresults
        have hfails : head.failed = true := by simpa [hhead] using hfailed
        have hkept : (kept head).failed = true := hfails
        rw [keptHistory_failed hfailed]
        rw [List.takeWhile_cons_of_pos (by simpa using hfailed), List.map_cons] at hcount ⊢
        simp only [failureStreak, hfails, hkept, causeOf_kept, Bool.not_true, Bool.false_eq_true,
          if_false, Option.map_some, hcount]
        rfl
      · obtain ⟨tail, htail⟩ := keptHistory_cons head rest
        have hnot : (kept head).failed = false := by
          rw [show (kept head).failed = head.failed from rfl, hhead]
          simpa using hfailed
        rw [htail]
        simp [failureStreak, hnot, hhead, hfailed]

/-- Every run in the histories of an environment carries a result. -/
def EnvironmentHasResults (env : OversightEnvironment) : Prop :=
  HasResults env.builds.ios ∧ HasResults env.builds.android

theorem streak_kept {env : OversightEnvironment} (hresults : EnvironmentHasResults env)
    (platform : BuildPlatform) :
    failureStreak ((keptEnvironment env).builds.get platform) =
      (failureStreak (env.builds.get platform)).map keptStreak := by
  cases platform with
  | ios => exact failureStreak_kept hresults.1
  | android => exact failureStreak_kept hresults.2

theorem isLooping_kept {env : OversightEnvironment} (hresults : EnvironmentHasResults env)
    (platform : BuildPlatform) :
    isLooping ((keptEnvironment env).builds.get platform) =
      isLooping (env.builds.get platform) := by
  unfold isLooping
  rw [streak_kept hresults, Option.any_map]
  rfl

section
variable (dateParse : String → Option Int)

theorem newerBuild_kept (newest : Option Build) (build : Build) :
    newerBuild dateParse (newest.map kept) (kept build) =
      (newerBuild dateParse newest build).map kept := by
  cases newest with
  | none => rfl
  | some other =>
      show (if isLater (time dateParse build.startedAt) (time dateParse other.startedAt)
        then _ else _) = _
      unfold newerBuild
      dsimp only
      split_ifs <;> rfl

theorem newestBuild_kept (env : OversightEnvironment) :
    newestBuild dateParse (keptEnvironment env) = (newestBuild dateParse env).map kept := by
  have hbuilds : (env.lastBuilds.ios.map kept).toList ++ (env.lastBuilds.android.map kept).toList =
      (env.lastBuilds.ios.toList ++ env.lastBuilds.android.toList).map kept := by
    cases env.lastBuilds.ios <;> cases env.lastBuilds.android <;> rfl
  show List.foldl (newerBuild dateParse) none
    ((env.lastBuilds.ios.map kept).toList ++ (env.lastBuilds.android.map kept).toList) = _
  rw [hbuilds, List.foldl_map]
  show List.foldl (fun newest build => newerBuild dateParse newest (kept build))
    (Option.map kept none) _ = _
  exact List.foldl_hom (Option.map kept) (newerBuild_kept dateParse)

theorem lastActivityAt_kept (env : OversightEnvironment) (devices : List SlotDevice)
    (seen : List (Option Int)) :
    lastActivityAt dateParse (keptEnvironment env) devices seen =
      lastActivityAt dateParse env devices seen := by
  have htimes : ∀ build : Option Build,
      buildTimes dateParse (build.map kept) = buildTimes dateParse build := by
    rintro (_ | build) <;> rfl
  unfold lastActivityAt keptEnvironment
  dsimp only
  rw [htimes, htimes]

end

/-! ## What the rules find -/

section
variable {dateParse : String → Option Int} {env : OversightEnvironment}

theorem oversightTitle_kept {status summaries : OversightStatus}
    (henvironments : summaries.environments = status.environments.map keptEnvironment)
    (hworktrees : summaries.unprovisionedWorktrees = status.unprovisionedWorktrees) :
    oversightTitle (keptEnvironment env) summaries = oversightTitle env status := by
  unfold oversightTitle
  rw [henvironments, hworktrees]
  simp only [List.map_map]
  rfl

theorem attentionItems_kept (look : AttentionLook) (hresults : EnvironmentHasResults env) :
    attentionItems dateParse look (keptEnvironment env) = attentionItems dateParse look env := by
  have hsigning : ∀ platform, signingCode dateParse look (keptEnvironment env) platform =
      signingCode dateParse look env platform := by
    intro platform
    have hlast : (keptEnvironment env).lastBuilds.get platform =
        (env.lastBuilds.get platform).map kept := by cases platform <;> rfl
    unfold signingCode
    rw [hlast]
    cases env.lastBuilds.get platform <;> rfl
  have hbuild : ∀ platform, buildItems dateParse look (keptEnvironment env) platform =
      buildItems dateParse look env platform := by
    intro platform
    unfold buildItems
    rw [hsigning, streak_kept hresults]
    cases signingCode dateParse look env platform with
    | some code => rfl
    | none => cases failureStreak (env.builds.get platform) <;> rfl
  have hstuck : stuckItems dateParse look (keptEnvironment env) =
      stuckItems dateParse look env := by
    unfold stuckItems
    rw [newestBuild_kept, lastActivityAt_kept, Option.filter_map, Option.map_map]
    rfl
  unfold attentionItems
  rw [hbuild, hbuild, hstuck]
  rfl

/-- A look at a workspace whose environment is its summary. -/
def keptLook (look : WorkspaceLook) : WorkspaceLook := { look with env := keptEnvironment look.env }

variable {run : Run} {look : WorkspaceLook} {entry : WorkspaceEntry} {prev : Option WorkspaceEntry}

theorem overseeProgress_kept :
    overseeProgress dateParse run (keptLook look) entry =
      overseeProgress dateParse run look entry := by
  have hgreen : releasedGreen dateParse (keptLook look) =
      (releasedGreen dateParse look).map kept := by
    unfold releasedGreen keptLook
    dsimp only
    rw [newestBuild_kept]
    split_ifs
    · rw [Option.filter_map]
      rfl
    · rfl
  have hquiet : quietSince dateParse (keptLook look) entry = quietSince dateParse look entry :=
    lastActivityAt_kept dateParse look.env look.devices _
  have hfinish : ∀ since entry, overseeFinish dateParse run (keptLook look) since entry =
      overseeFinish dateParse run look since entry := by
    intro since entry
    unfold overseeFinish
    rw [hgreen]
    cases releasedGreen dateParse look <;> cases since <;> rfl
  have hstuck : ∀ since entry, overseeStuck dateParse run (keptLook look) since entry =
      overseeStuck dateParse run look since entry := by
    intro since entry
    unfold overseeStuck
    rw [hgreen, show (keptLook look).env = keptEnvironment look.env from rfl, newestBuild_kept,
      Option.isSome_map, Option.filter_map]
    dsimp only
    rw [Option.map_map]
    rfl
  unfold overseeProgress
  rw [hquiet]
  simp only [hfinish, hstuck]
  rfl

theorem overseeLoops_kept (hresults : EnvironmentHasResults look.env) :
    overseeLoops run (keptLook look) prev entry = overseeLoops run look prev entry := by
  have hloop : ∀ platform before, overseeLoop run (keptLook look) platform before =
      overseeLoop run look platform before := by
    intro platform before
    unfold overseeLoop
    rw [show (keptLook look).env = keptEnvironment look.env from rfl, streak_kept hresults]
    cases failureStreak (look.env.builds.get platform) <;> rfl
  unfold overseeLoops
  rw [hloop, hloop]

theorem overseeAttention_kept (hresults : EnvironmentHasResults look.env) :
    overseeAttention dateParse run (keptLook look) prev entry =
      overseeAttention dateParse run look prev entry := by
  have htarget : ∀ item, itemTarget (keptEnvironment look.env) item = itemTarget look.env item := by
    intro item
    unfold itemTarget
    dsimp only
    rw [isLooping_kept hresults]
    rfl
  have hpending : pendingItems dateParse run (keptEnvironment look.env) =
      pendingItems dateParse run look.env := by
    unfold pendingItems
    rw [attentionItems_kept _ hresults]
    simp only [htarget]
  unfold overseeAttention
  rw [show (keptLook look).env = keptEnvironment look.env from rfl, hpending]
  rfl

/-- A look at a workspace finds the same in its summary. -/
theorem overseeWorkspace_kept (hresults : EnvironmentHasResults env)
    {status summaries : OversightStatus}
    (htitle : oversightTitle (keptEnvironment env) summaries = oversightTitle env status) :
    overseeWorkspace dateParse run (keptEnvironment env) summaries prev =
      overseeWorkspace dateParse run env status prev := by
  have hlook : workspaceLook run (keptEnvironment env) summaries =
      keptLook (workspaceLook run env status) := by
    unfold workspaceLook keptLook
    rw [htitle]
    rfl
  have hstart : ∀ look entry, overseeStart run (keptLook look) entry =
      overseeStart run look entry := fun _ _ => rfl
  have hmerge : ∀ look entry, overseeMerge run (keptLook look) prev entry =
      overseeMerge run look prev entry := fun _ _ => rfl
  have hopen : openEntry run (keptEnvironment env) prev = openEntry run env prev := rfl
  have hloops : ∀ entry, overseeLoops run (keptLook (workspaceLook run env status)) prev entry =
      overseeLoops run (workspaceLook run env status) prev entry := by
    intro entry
    exact overseeLoops_kept hresults
  have hattention : ∀ entry,
      overseeAttention dateParse run (keptLook (workspaceLook run env status)) prev entry =
        overseeAttention dateParse run (workspaceLook run env status) prev entry := by
    intro entry
    exact overseeAttention_kept hresults
  unfold overseeWorkspace
  rw [hlook]
  simp only [hopen, hstart, overseeProgress_kept, hloops, hmerge, hattention]

end

/-! ## A status and its summaries -/

/-- Every history entry of the payload carries a result. -/
def StatusPayload.HasResults (payload : StatusPayload) : Prop :=
  ∀ env ∈ payload.environments, ∀ builds, env.builds = some builds →
    (∀ entry ∈ builds.ios.getD [], entry.result ≠ none) ∧
      ∀ entry ∈ builds.android.getD [], entry.result ≠ none

theorem environmentHasResults {payload : StatusPayload} (hresults : payload.HasResults)
    {env : EnvironmentState} (henv : env ∈ payload.environments) :
    EnvironmentHasResults env.read := by
  unfold EnvironmentHasResults HasResults EnvironmentState.read readEnvironment
  cases hbuilds : env.builds with
  | none => simp
  | some builds =>
      obtain ⟨hios, handroid⟩ := hresults env henv builds hbuilds
      simp only [List.forall_mem_map, Option.bind_some]
      exact ⟨hios, handroid⟩

theorem summaries_environments (payload : StatusPayload) :
    payload.summaries.environments = payload.full.environments.map keptEnvironment := by
  simp only [StatusPayload.summaries, StatusPayload.full, List.map_map]
  exact List.map_congr_left fun env _ => read_workspaceSummary env

/-- The rules for one workspace read nothing else of the status that a look is given. -/
theorem overseeWorkspace_status (dateParse : String → Option Int) (input : OversightInput)
    (prefs : OversightPrefs) (now : Int) (baseline : Bool) (a b : Option OversightStatus)
    (env : OversightEnvironment) (status : OversightStatus) (prev : Option WorkspaceEntry) :
    overseeWorkspace dateParse ⟨{ input with status := a }, prefs, now, baseline⟩ env status prev =
      overseeWorkspace dateParse ⟨{ input with status := b }, prefs, now, baseline⟩ env status
        prev :=
  rfl

theorem overseeWorkspaces_summaries {dateParse : String → Option Int} {payload : StatusPayload}
    (hresults : payload.HasResults) (input : OversightInput) (prefs : OversightPrefs) (now : Int)
    (baseline : Bool) (previous : Option OversightState) :
    overseeWorkspaces dateParse
        ⟨{ input with status := some payload.summaries }, prefs, now, baseline⟩ previous =
      overseeWorkspaces dateParse
        ⟨{ input with status := some payload.full }, prefs, now, baseline⟩ previous := by
  unfold overseeWorkspaces
  dsimp only
  rw [summaries_environments, List.map_map]
  refine List.map_congr_left fun env henv => ?_
  obtain ⟨state, hstate, rfl⟩ := List.mem_map.mp henv
  refine congrArg (Prod.mk state.path) ?_
  rw [overseeWorkspace_status dateParse input prefs now baseline (some payload.summaries)
    (some payload.full)]
  exact overseeWorkspace_kept (environmentHasResults hresults hstate)
    (oversightTitle_kept (summaries_environments payload) rfl)

/-- Oversight and what needs attention are the same in the summaries of a status as in the
status itself. -/
theorem oversight_of_summaries (dateParse : String → Option Int) (payload : StatusPayload)
    (hresults : payload.HasResults) (previous : Option OversightState) (input : OversightInput)
    (prefs : OversightPrefs) (now awakeSince : Int) (look : AttentionLook)
    (volumes : Option (List Nat)) :
    oversee dateParse previous { input with status := some payload.summaries } prefs now awakeSince =
      oversee dateParse previous { input with status := some payload.full } prefs now awakeSince ∧
    needsAttention dateParse look payload.summaries.environments volumes =
      needsAttention dateParse look payload.full.environments volumes := by
  refine ⟨?_, ?_⟩
  · have hworkspaces : overseeWorkspaces dateParse _ previous = _ :=
      overseeWorkspaces_summaries hresults input prefs now previous.isNone previous
    unfold oversee overseeRun
    rw [hworkspaces]
    rfl
  · have hitems : ∀ env ∈ payload.full.environments,
        attentionItems dateParse look (keptEnvironment env) = attentionItems dateParse look env := by
      intro env henv
      obtain ⟨state, hstate, rfl⟩ := List.mem_map.mp henv
      exact attentionItems_kept look (environmentHasResults hresults hstate)
    have hranked : (payload.full.environments.map keptEnvironment).flatMap (fun env =>
          (attentionItems dateParse look env).map fun item => (item, if env.live then 1 else 2)) =
        payload.full.environments.flatMap fun env =>
          (attentionItems dateParse look env).map fun item => (item, if env.live then 1 else 2) := by
      rw [List.flatMap_map]
      refine List.flatMap_congr fun env henv => ?_
      rw [hitems env henv]
      rfl
    unfold needsAttention
    rw [summaries_environments, hranked]

def recordedRun (result : String) : BuildHistoryEntry where
  platform := "ios"
  status := if result = "succeeded" then "ok" else "failed"
  cacheHit := none
  cacheSkipped := false
  durationMs := some 1000
  startedAt := "2026-01-01T00:00:00Z"
  finishedAt := none
  errorCode := some "STIM_BUILD_FAILED"
  buildMachine := none
  builtOn := none
  offloadedTo := none
  offloadFallback := none
  cause := none
  fingerprint := some "f"
  missReason := none
  diagnostics := some [⟨none, none, none, "note"⟩, ⟨some "App.swift", some 3, none, "error"⟩]
  result := some result
  slot := "default"
  phases := []
  configuration := none
  cacheKey := none
  compileSteps := none

/-- A workspace whose last three runs failed at one place, after one that succeeded. -/
def failingPayload : StatusPayload where
  environments := [{
    path := "/work/app"
    live := true
    phase := some "live"
    tutorial := none
    issues := []
    ios := none
    android := none
    slots := []
    web := none
    remoteDevices := []
    physicalDevices := []
    build := none
    logs := some ⟨"/work/app/logs", 2⟩
    lastBuilds := none
    builds := some ⟨some (["failed", "failed", "failed", "succeeded"].map recordedRun), none, none⟩
    macos := none
    agentDevice := none
    worktree := none }]
  unprovisionedWorktrees := []
  distinct := by decide

def failingLook : AttentionLook := ⟨0, 15, EAS_SESSION_MINUTES, [], attentionBody⟩

theorem oversight_of_summaries_failingPayload :
    failingPayload.summaries ≠ failingPayload.full ∧
      needsAttention (fun _ => none) failingLook failingPayload.summaries.environments none =
        needsAttention (fun _ => none) failingLook failingPayload.full.environments none := by
  have hresults : failingPayload.HasResults := by
    intro env henv builds hbuilds
    obtain rfl := List.mem_singleton.mp henv
    obtain rfl := Option.some.inj hbuilds
    refine ⟨by decide, ?_⟩
    intro entry hentry
    exact absurd hentry List.not_mem_nil
  exact ⟨by decide +kernel, (oversight_of_summaries (fun _ => none) failingPayload hresults none
    ⟨"mac", none, none, none, none, fun _ => none, []⟩ ⟨[.looping], 15, false⟩ 0 0 failingLook
    none).2⟩

end Stim.StatusViews
