import Stim.Core.Oversight.Rules

/-!
# Looking again

A second look at an unchanged world, before the time the first one asked to be woken at, has
nothing to notify: each rule remembers what it settled.  The rule that a drive starts is the
exception: an idle workspace forgets it at once, so a workspace that is idle while an agent
drives one of its devices notifies at every look.
-/

namespace Stim.Oversight

/-! ## What rules emit -/

@[simp]
theorem nothing_notifications : Emitted.nothing.notifications = [] := rfl

@[simp]
theorem wake_notifications (run : Run) (due : Int) : (wake run due).notifications = [] := rfl

@[simp]
theorem append_notifications (a b : Emitted) :
    (a.append b).notifications = a.notifications ++ b.notifications := rfl

/-- Nothing that was emitted asks for a look at `t` or before. -/
def Emitted.Before (emitted : Emitted) (t : Int) : Prop := ∀ w, emitted.wakeAt = some w → t < w

theorem earliest_lt {a b : Option Int} {t : Int} :
    (∀ w, earliest a b = some w → t < w) ↔
      (∀ w, a = some w → t < w) ∧ ∀ w, b = some w → t < w := by
  cases a with
  | none => simp [earliest]
  | some a =>
      cases b with
      | none => simp [earliest]
      | some b =>
          simp only [earliest, Option.some.injEq, forall_eq']
          omega

theorem before_append {a b : Emitted} {t : Int} :
    (a.append b).Before t ↔ a.Before t ∧ b.Before t := earliest_lt

@[simp]
theorem before_nothing (t : Int) : Emitted.nothing.Before t := nofun

theorem before_wake {run : Run} {due t : Int} (h : (wake run due).Before t)
    (hnow : run.now < due) : t < due := h due (if_pos hnow)

/-- Every rule wakes after the look only. -/
theorem wake_before_now (run : Run) (due : Int) : (wake run due).Before run.now := by
  intro w hw
  simp only [wake, Option.ite_none_right_eq_some, Option.some.injEq] at hw
  omega

theorem event_before (run : Run) (notification : OversightNotification) (t : Int) :
    (event run notification).Before t := by
  unfold event
  split_ifs
  · nofun
  · exact before_nothing t

theorem lasting_before (run : Run) (notification : OversightNotification) (t : Int) :
    (lasting run notification).2.Before t := by
  unfold lasting
  split_ifs
  · exact before_nothing t
  · exact before_nothing t
  · nofun

/-- With its category off, an event is not notified. -/
theorem event_off {run : Run} {notification : OversightNotification}
    (h : notification.category ∉ run.prefs.categories) : event run notification = .nothing := by
  simp [event, h]

/-- Outside quiet hours a lasting problem is settled at once. -/
theorem lasting_settled {run : Run} (hquiet : run.prefs.quiet = false)
    (notification : OversightNotification) : (lasting run notification).1 = true := by
  unfold lasting
  split_ifs with hoff hon
  · rfl
  · exact absurd hon (by simp [hquiet])
  · rfl

/-- The same look at another time. -/
def Run.again (run : Run) (t : Int) : Run := { run with now := t, baseline := false }

section
variable {run : Run} {t : Int}

/-! ## The machine -/

theorem settle_settled (hquiet : run.prefs.quiet = false) {held : Held} {due due' : Int}
    {notification notification' : OversightNotification}
    (hbefore : (settle run held due notification).2.Before t) (hdue : run.now < due → due ≤ due') :
    (settle (run.again t) (settle run held due notification).1 due' notification').2.notifications =
      [] := by
  unfold settle at hbefore ⊢
  by_cases hnotified : held.notified = true
  · simp [hnotified]
  · by_cases hnow : run.now < due
    · simp only [hnotified, hnow, if_true, if_false, Bool.false_eq_true] at hbefore ⊢
      have hlate : (run.again t).now < due' :=
        Int.lt_of_lt_of_le (before_wake hbefore hnow) (hdue hnow)
      rw [if_pos hlate]
      rfl
    · simp [hnotified, hnow, lasting_settled hquiet]

@[simp]
theorem settle_since (run : Run) (held : Held) (due : Int) (notification : OversightNotification) :
    (settle run held due notification).1.since = held.since := by
  unfold settle
  split_ifs
  · rfl
  · rfl
  · rfl

@[simp]
theorem heldLink_self (run : Run) (kind : Link) (held : Held) :
    heldLink run kind (some ⟨kind, held⟩) = held := by
  simp [heldLink, Option.filter]

theorem overseeLink_settled (hquiet : run.prefs.quiet = false) {previous : Option HeldLink}
    {awakeSince : Int} (hbefore : (overseeLink run previous awakeSince).2.Before t) :
    (overseeLink (run.again t) (overseeLink run previous awakeSince).1 awakeSince).2.notifications =
      [] := by
  unfold overseeLink at *
  have hinput : (run.again t).input = run.input := rfl
  rw [hinput]
  cases hlink : run.input.link.filter (· ≠ .isOpen) with
  | none => rfl
  | some kind =>
      simp only [hlink] at hbefore
      simp only [heldLink_self]
      refine settle_settled hquiet hbefore ?_
      intro _
      simp [linkDue]

theorem diskFloor_none_le (previous : Option Held) : diskFloor none ≤ diskFloor previous := by
  cases previous with
  | none => exact Nat.le_refl _
  | some held =>
      show DISK_CRITICAL_BYTES ≤ DISK_RECOVERED_BYTES
      decide

theorem diskFloor_le_some (previous : Option Held) (held : Held) :
    diskFloor previous ≤ diskFloor (some held) := by
  cases previous with
  | none => exact diskFloor_none_le _
  | some before => exact Nat.le_refl _

theorem overseeDisk_settled (hquiet : run.prefs.quiet = false) {previous : Option Held}
    (hbefore : (overseeDisk run previous).2.Before t) :
    (overseeDisk (run.again t) (overseeDisk run previous).1).2.notifications = [] := by
  unfold overseeDisk at *
  have hinput : (run.again t).input = run.input := rfl
  rw [hinput]
  cases hvolumes : run.input.volumes with
  | none => rfl
  | some volumes =>
      simp only [hvolumes] at hbefore ⊢
      cases hlowest : volumes.min? with
      | none => rfl
      | some lowest =>
          simp only [hlowest] at hbefore ⊢
          by_cases hlow : lowest < diskFloor previous
          · rw [if_pos hlow] at hbefore ⊢
            rw [if_pos (Nat.lt_of_lt_of_le hlow (diskFloor_le_some previous _))]
            refine settle_settled hquiet hbefore ?_
            intro hnow
            exact absurd hnow (Int.lt_irrefl _)
          · rw [if_neg hlow]
            have hagain : ¬ lowest < diskFloor none := fun hlt =>
              hlow (Nat.lt_of_lt_of_le hlt (diskFloor_none_le previous))
            rw [if_neg hagain]
            rfl

theorem overseeMemory_settled (hquiet : run.prefs.quiet = false) {previous : Option Held}
    {known : Bool} (hbefore : (overseeMemory run previous known).2.Before t) :
    (overseeMemory (run.again t) (overseeMemory run previous known).1
      (run.input.memoryPressure.isSome || known)).2.notifications = [] := by
  unfold overseeMemory at *
  have hinput : (run.again t).input = run.input := rfl
  rw [hinput]
  cases hpressure : run.input.memoryPressure with
  | none => rfl
  | some pressure =>
      simp only [hpressure] at hbefore ⊢
      by_cases hcritical : pressure = "critical"
      · rw [if_pos hcritical] at hbefore ⊢
        simp only [hcritical, if_true, heldMemory, Option.getD_some, Option.isSome_some,
          Bool.true_or] at hbefore ⊢
        refine settle_settled hquiet hbefore ?_
        intro hnow
        cases hbase : run.baseline with
        | true => simp [hbase] at hnow
        | false => simp [Run.again]
      · rw [if_neg hcritical]
        rfl

/-! ## Loops and merges -/

variable {look : WorkspaceLook}

theorem overseeLoop_settled (hquiet : run.prefs.quiet = false) {platform : BuildPlatform}
    {before : Option Loop} :
    (overseeLoop (run.again t) look platform
      (overseeLoop run look platform before).1).2.notifications = [] := by
  unfold overseeLoop
  cases failureStreak (look.env.builds.get platform) with
  | none => rfl
  | some streak =>
      dsimp only
      by_cases hshort : streak.count < LOOP_COUNT
      · simp [hshort]
      · have hlong : LOOP_COUNT ≤ streak.count := Nat.le_of_not_lt hshort
        generalize hloop : (before.filter fun before =>
          before.signature = streak.cause.key && LOOP_COUNT ≤ streak.count).getD
            ⟨streak.cause.key, false⟩ = loop
        have hsignature : loop.signature = streak.cause.key := by
          subst hloop
          cases before with
          | none => rfl
          | some before =>
              by_cases hsame : before.signature = streak.cause.key
              · simp [Option.filter, hsame, hlong]
              · simp [Option.filter, hsame]
        by_cases hnotified : loop.notified = true
        · simp [hshort, hnotified, Option.filter, hsignature, hlong]
        · simp [hshort, hnotified, Option.filter, hsignature, hlong, lasting_settled hquiet]

/-- The second look knows the pull request that the first one recorded. -/
theorem overseePullRequest_settled {entry again : WorkspaceEntry}
    (hpr : again.pr = (overseePullRequest run look entry).1.pr) :
    (overseePullRequest (run.again t) look again).2.notifications = [] := by
  unfold overseePullRequest at *
  have hinput : (run.again t).input = run.input := rfl
  rw [hinput]
  cases hlooked : run.input.pullRequests look.env.path with
  | none => rfl
  | some found =>
      cases found with
      | none => rfl
      | some pr =>
          have hknown : again.pr = some (some (KnownPullRequest.of pr)) := by
            rw [hpr, hlooked]
            dsimp only
            split
            · rfl
            · split_ifs <;> rfl
          simp only [hknown]
          have hsame : (some (KnownPullRequest.of pr)).filter (·.number = pr.number) =
              some (KnownPullRequest.of pr) := by
            simp [Option.filter, KnownPullRequest.of]
          rw [hsame]
          simp [Option.any]

theorem overseeBranch_settled {prev again : WorkspaceEntry}
    (hmerged : again.mergedInto = prev.mergedInto) :
    (overseeBranch run look (some prev) again).2.notifications = [] := by
  unfold overseeBranch
  cases hinto : again.mergedInto with
  | none =>
      dsimp only
      split_ifs
      · rfl
      · rfl
  | some branch =>
      rw [hinto] at hmerged
      simp [← hmerged]

/-! ## Progress -/

variable {dateParse : String → Option Int}

/-- What an entry remembers so that a look before `t` finds nothing new in its progress. -/
structure Progressed (dateParse : String → Option Int) (run : Run) (look : WorkspaceLook)
    (t : Int) (entry : WorkspaceEntry) : Prop where
  warmed : look.env.phase = some "warming" → entry.warmed = true
  driving : look.driven ≠ [] → isIdle look.env = false →
    entry.driveNotified = true ∧ entry.drove = true
  finish : ∀ newest since, releasedGreen dateParse look = some newest →
    quietSince dateParse look entry = some since → entry.drove = true →
    isBuilding look.env = false → entry.finished = false →
    isIdle look.env = false ∧ t < since + FINISH_SETTLE_MS
  stuck : ∀ device since, stuckDevice look = some device →
    quietSince dateParse look entry = some since → entry.drove = true →
    isBuilding look.env = false → releasedGreen dateParse look = none →
    (∀ stuckAt, entry.stuckAt = some stuckAt → since ≤ stuckAt) ∧
      (entry.stuckAt = none → t < since + run.prefs.stuckMinutes * 60000)

/-- Which fields of an entry the rules before the loops change. -/
structure Progress where
  warmed : Bool
  drove : Bool
  drivenAt : Option Int
  driveNotified : Bool
  errors : Nat
  errorsAt : Option Int
  stuckAt : Option Int
  finished : Bool
  finishedInRun : Bool

def WorkspaceEntry.progress (entry : WorkspaceEntry) : Progress where
  warmed := entry.warmed
  drove := entry.drove
  drivenAt := entry.drivenAt
  driveNotified := entry.driveNotified
  errors := entry.errors
  errorsAt := entry.errorsAt
  stuckAt := entry.stuckAt
  finished := entry.finished
  finishedInRun := entry.finishedInRun

/-- The rules for merges change nothing else. -/
theorem overseeMerge_rest (run : Run) (look : WorkspaceLook) (prev : Option WorkspaceEntry)
    (entry : WorkspaceEntry) :
    (overseeMerge run look prev entry).1 =
      { entry with
        pr := (overseeMerge run look prev entry).1.pr
        mergeNotified := (overseeMerge run look prev entry).1.mergeNotified } := by
  have hgithub : (overseePullRequest run look entry).1 =
      { entry with
        pr := (overseePullRequest run look entry).1.pr
        mergeNotified := (overseePullRequest run look entry).1.mergeNotified } := by
    unfold overseePullRequest
    split
    · rfl
    · rfl
    · dsimp only
      split
      · rfl
      · split_ifs <;> rfl
  have hgit : ∀ entry, (overseeBranch run look prev entry).1 =
      { entry with mergeNotified := (overseeBranch run look prev entry).1.mergeNotified } := by
    intro entry
    unfold overseeBranch
    split
    · rfl
    · rfl
    · split_ifs <;> rfl
    · split_ifs <;> rfl
  unfold overseeMerge
  dsimp only
  rw [hgit, hgithub]

/-- The progress that a look at a workspace leaves. -/
theorem overseeWorkspace_progress (run : Run) (env : OversightEnvironment)
    (status : OversightStatus) (prev : Option WorkspaceEntry) :
    (overseeWorkspace dateParse run env status prev).1.progress =
      (overseeProgress dateParse run (workspaceLook run env status)
        (overseeStart run (workspaceLook run env status) (openEntry run env prev)).1).1.progress := by
  unfold overseeWorkspace overseeAttention
  dsimp only
  rw [overseeMerge_rest]
  rfl

/-- Only the start of a drive moves the progress of an entry on. -/
theorem overseeStart_fields (run : Run) (look : WorkspaceLook) (entry : WorkspaceEntry) :
    (overseeStart run look entry).1.errors = entry.errors ∧
      (overseeStart run look entry).1.errorsAt = entry.errorsAt ∧
      (overseeStart run look entry).1.stuckAt = entry.stuckAt ∧
      (look.env.phase = some "warming" → (overseeStart run look entry).1.warmed = true) ∧
      (look.driven ≠ [] → (overseeStart run look entry).1.driveNotified = true ∧
        (overseeStart run look entry).1.drove = true ∧
        (overseeStart run look entry).1.finished = false) ∧
      (look.driven = [] → (overseeStart run look entry).1.drove = entry.drove ∧
        (overseeStart run look entry).1.drivenAt = entry.drivenAt ∧
        (overseeStart run look entry).1.finished = entry.finished) := by
  unfold overseeStart overseeDriving overseeWarming
  cases hdriven : look.driven with
  | nil =>
      dsimp only
      split_ifs <;> simp_all
  | cons first rest =>
      dsimp only
      split_ifs <;> simp_all

variable (dateParse) in
theorem overseeFinish_fields (run : Run) (look : WorkspaceLook) (since : Option Int)
    (entry : WorkspaceEntry) :
    (overseeFinish dateParse run look since entry).1.progress =
      { entry.progress with
        finished := (overseeFinish dateParse run look since entry).1.finished
        finishedInRun := (overseeFinish dateParse run look since entry).1.finishedInRun } := by
  unfold overseeFinish
  split
  · split_ifs <;> rfl
  · rfl

variable (dateParse) in
theorem overseeStuck_fields (run : Run) (look : WorkspaceLook) (since : Option Int)
    (entry : WorkspaceEntry) :
    (overseeStuck dateParse run look since entry).1.progress =
      { entry.progress with
        stuckAt := (overseeStuck dateParse run look since entry).1.stuckAt } := by
  unfold overseeStuck
  split
  · dsimp only
    split_ifs <;> rfl
  · rfl

variable {entry : WorkspaceEntry}

/-- The entry that the stuck rule sees, and what the finish rule left it. -/
theorem endRun_drove {env : OversightEnvironment} (h : (endRun env entry).drove = true) :
    entry.drove = true ∧ isIdle env = false ∧ entry.finished = false := by
  unfold endRun at h
  cases hidle : isIdle env with
  | true => simp [hidle] at h
  | false =>
      cases hfinished : entry.finished with
      | true => simp [hidle, hfinished] at h
      | false => simp_all

theorem endRun_kept (env : OversightEnvironment) (entry : WorkspaceEntry) :
    (endRun env entry).errorsAt = entry.errorsAt ∧ (endRun env entry).drivenAt = entry.drivenAt ∧
      (endRun env entry).stuckAt = entry.stuckAt ∧ (endRun env entry).errors = entry.errors := by
  unfold endRun
  dsimp only
  split_ifs <;> exact ⟨rfl, rfl, rfl, rfl⟩

theorem endRun_running {env : OversightEnvironment} (h : isIdle env = false)
    (entry : WorkspaceEntry) :
    (endRun env entry).warmed = entry.warmed ∧ (endRun env entry).finished = entry.finished ∧
      (entry.finished = false → (endRun env entry).drove = entry.drove ∧
        (endRun env entry).driveNotified = entry.driveNotified) := by
  cases hfinished : entry.finished with
  | true => simp [endRun, h, hfinished]
  | false => simp [endRun, h, hfinished]

theorem clearStuck_progress (since : Option Int) (entry : WorkspaceEntry) :
    (clearStuck since entry).progress =
      { entry.progress with stuckAt := (clearStuck since entry).stuckAt } := by
  unfold clearStuck
  split_ifs <;> rfl

/-- A drive whose finish rule ended with the work unfinished waits for its settle time. -/
theorem overseeFinish_waits {since : Int} {newest : Build}
    (hgreen : releasedGreen dateParse look = some newest)
    (hbuilding : isBuilding look.env = false) (hdrove : entry.drove = true)
    (hfinished : (overseeFinish dateParse run look (some since) entry).1.finished = false)
    (hbefore : (overseeFinish dateParse run look (some since) entry).2.Before t) :
    isIdle look.env = false ∧ t < since + FINISH_SETTLE_MS := by
  unfold overseeFinish at hfinished hbefore
  simp only [hgreen, hdrove, hbuilding, Bool.true_eq_false, Bool.false_eq_true, false_or] at *
  by_cases hdone : entry.finished = true
  · simp [hdone] at hfinished
  · rw [if_neg hdone] at hfinished hbefore
    by_cases hwait : isIdle look.env = false ∧ run.now < since + FINISH_SETTLE_MS
    · rw [if_pos hwait] at hbefore
      exact ⟨hwait.1, before_wake hbefore hwait.2⟩
    · rw [if_neg hwait] at hfinished
      split_ifs at hfinished

/-- A drive that the stuck rule looked at is remembered as stuck, or waits until it is. -/
theorem overseeStuck_waits (hquiet : run.prefs.quiet = false) {since : Int} {device : SlotDevice}
    (hdevice : stuckDevice look = some device) (hbuilding : isBuilding look.env = false)
    (hgreen : releasedGreen dateParse look = none) (hdrove : entry.drove = true)
    (hclear : ∀ stuckAt, entry.stuckAt = some stuckAt → since ≤ stuckAt)
    (hbefore : (overseeStuck dateParse run look (some since) entry).2.Before t) :
    (∀ stuckAt, (overseeStuck dateParse run look (some since) entry).1.stuckAt = some stuckAt →
      since ≤ stuckAt) ∧
    ((overseeStuck dateParse run look (some since) entry).1.stuckAt = none →
      t < since + run.prefs.stuckMinutes * 60000) := by
  unfold overseeStuck at *
  simp only [hdevice, hgreen, hdrove, hbuilding, Option.isSome_none, Bool.true_eq_false,
    Bool.false_eq_true, false_or] at *
  by_cases hstuck : entry.stuckAt.isSome = true
  · rw [if_pos hstuck]
    refine ⟨hclear, ?_⟩
    intro hnone
    exact absurd hnone (Option.isSome_iff_ne_none.mp hstuck)
  · rw [if_neg hstuck] at hbefore ⊢
    by_cases hwait : run.now < since + run.prefs.stuckMinutes * 60000
    · rw [if_pos hwait] at hbefore ⊢
      exact ⟨hclear, fun _ => before_wake hbefore hwait⟩
    · rw [if_neg hwait]
      simp [lasting_settled hquiet]

/-- The quiet time is read off fields that the rules of progress leave alone. -/
theorem quietSince_congr {a b : WorkspaceEntry} (herrors : a.errorsAt = b.errorsAt)
    (hdriven : look.driven = [] → a.drivenAt = b.drivenAt) :
    quietSince dateParse look a = quietSince dateParse look b := by
  unfold quietSince
  rw [herrors]
  by_cases h : look.driven = []
  · rw [hdriven h]
  · rw [if_neg h, if_neg h]

theorem le_of_clearStuck {since : Int} {stuckAt : Int}
    (h : (clearStuck (some since) entry).stuckAt = some stuckAt) : since ≤ stuckAt := by
  unfold clearStuck at h
  cases hstuck : entry.stuckAt with
  | none => simp [hstuck, isLater] at h
  | some before =>
      by_cases hlater : before < since
      · simp [hstuck, isLater, hlater] at h
      · simp [hstuck, isLater, hlater] at h
        omega

variable {since : Option Int}

/-- A released drive only is finished. -/
theorem overseeFinish_driven (h : look.driven ≠ []) :
    overseeFinish dateParse run look since entry = (entry, .nothing) := by
  simp [overseeFinish, releasedGreen, h]

theorem overseeProgress_progressed (hquiet : run.prefs.quiet = false)
    (hwarmed : look.env.phase = some "warming" → entry.warmed = true)
    (hdriving : look.driven ≠ [] → entry.driveNotified = true ∧ entry.drove = true ∧
      entry.finished = false) (hbefore : (overseeProgress dateParse run look entry).2.Before t) :
    Progressed dateParse run look t (overseeProgress dateParse run look entry).1 := by
  obtain ⟨hfinishing, hsticking⟩ := before_append.mp hbefore
  unfold overseeProgress
  dsimp only at hfinishing hsticking ⊢
  have hclear := clearStuck_progress (quietSince dateParse look entry) entry
  have hquietly : ∀ since stuckAt, quietSince dateParse look entry = some since →
      (clearStuck (quietSince dateParse look entry) entry).stuckAt = some stuckAt →
      since ≤ stuckAt := by
    intro since stuckAt hsince hstuck
    rw [hsince] at hstuck
    exact le_of_clearStuck hstuck
  generalize hsince : quietSince dateParse look entry = since at *
  generalize clearStuck since entry = cleared at *
  have hfinish := overseeFinish_fields dateParse run look since cleared
  have hdriven : look.driven ≠ [] →
      (overseeFinish dateParse run look since cleared).1.finished = false := by
    intro hne
    rw [overseeFinish_driven hne]
    exact (congrArg Progress.finished hclear).trans (hdriving hne).2.2
  generalize hfinished : overseeFinish dateParse run look since cleared = finished at *
  have hend := endRun_kept look.env finished.1
  have hstuck := overseeStuck_fields dateParse run look since (endRun look.env finished.1)
  generalize hsticked : overseeStuck dateParse run look since (endRun look.env finished.1) = stuck at *
  have hdrove : stuck.1.drove = (endRun look.env finished.1).drove :=
    congrArg Progress.drove hstuck
  have hsame : quietSince dateParse look stuck.1 = since := by
    rw [← hsince]
    refine quietSince_congr ?_ ?_
    · exact (congrArg Progress.errorsAt hstuck).trans
        (hend.1.trans ((congrArg Progress.errorsAt hfinish).trans (congrArg Progress.errorsAt hclear)))
    · intro _
      exact (congrArg Progress.drivenAt hstuck).trans
        (hend.2.1.trans ((congrArg Progress.drivenAt hfinish).trans (congrArg Progress.drivenAt hclear)))
  refine ⟨?_, ?_, ?_, ?_⟩
  · intro hphase
    have hidle : isIdle look.env = false := by simp [isIdle, hphase]
    exact (congrArg Progress.warmed hstuck).trans ((endRun_running hidle _).1.trans
      ((congrArg Progress.warmed hfinish).trans
        ((congrArg Progress.warmed hclear).trans (hwarmed hphase))))
  · intro hne hidle
    have hkept := (endRun_running hidle finished.1).2.2 (hdriven hne)
    refine ⟨?_, ?_⟩
    · exact (congrArg Progress.driveNotified hstuck).trans (hkept.2.trans
        ((congrArg Progress.driveNotified hfinish).trans
          ((congrArg Progress.driveNotified hclear).trans (hdriving hne).1)))
    · exact hdrove.trans (hkept.1.trans ((congrArg Progress.drove hfinish).trans
        ((congrArg Progress.drove hclear).trans (hdriving hne).2.1)))
  · intro newest quiet hgreen hquiet' hdrove' hbuilding _
    obtain ⟨hfdrove, hidle, hffinished⟩ := endRun_drove (hdrove ▸ hdrove')
    have hcdrove : cleared.drove = true := (congrArg Progress.drove hfinish).symm.trans hfdrove
    rw [hsame] at hquiet'
    subst hquiet'
    exact overseeFinish_waits hgreen hbuilding hcdrove (hfinished ▸ hffinished)
      (hfinished ▸ hfinishing)
  · intro device quiet hdevice hquiet' hdrove' hbuilding hgreen
    rw [hsame] at hquiet'
    subst hquiet'
    rw [← hsticked]
    refine overseeStuck_waits hquiet hdevice hbuilding hgreen (hdrove ▸ hdrove') ?_
      (hsticked ▸ hsticking)
    intro stuckAt hat
    refine hquietly quiet stuckAt rfl ?_
    exact ((congrArg Progress.stuckAt hfinish).symm.trans hend.2.2.1.symm).trans hat

theorem overseeFinish_silent
    (h : ∀ newest quiet, releasedGreen dateParse look = some newest → since = some quiet →
      entry.drove = true → isBuilding look.env = false → entry.finished = false →
      isIdle look.env = false ∧ run.now < quiet + FINISH_SETTLE_MS) :
    (overseeFinish dateParse run look since entry).2.notifications = [] := by
  unfold overseeFinish
  split
  case h_2 => rfl
  case h_1 newest quiet hgreen =>
    by_cases hskip : entry.drove = false ∨ isBuilding look.env = true ∨ entry.finished = true
    · rw [if_pos hskip]
      rfl
    · rw [if_neg hskip]
      simp only [not_or, Bool.not_eq_false, Bool.not_eq_true] at hskip
      rw [if_pos (h newest quiet hgreen rfl hskip.1 hskip.2.1 hskip.2.2)]
      rfl

theorem overseeStuck_silent
    (h : ∀ device quiet, stuckDevice look = some device → since = some quiet →
      entry.drove = true → isBuilding look.env = false → releasedGreen dateParse look = none →
      entry.stuckAt = none → run.now < quiet + run.prefs.stuckMinutes * 60000) :
    (overseeStuck dateParse run look since entry).2.notifications = [] := by
  unfold overseeStuck
  split
  case h_2 => rfl
  case h_1 device quiet hdevice =>
    by_cases hskip : entry.drove = false ∨ isBuilding look.env = true ∨
        (releasedGreen dateParse look).isSome = true ∨ entry.stuckAt.isSome = true
    · rw [if_pos hskip]
      rfl
    · rw [if_neg hskip]
      simp only [not_or, Bool.not_eq_false, Bool.not_eq_true, Option.isSome_eq_false_iff,
        Option.isNone_iff_eq_none] at hskip
      rw [if_pos (h device quiet hdevice rfl hskip.1 hskip.2.1 hskip.2.2.1 hskip.2.2.2)]
      rfl

theorem overseeStart_silent {entry again : WorkspaceEntry}
    (h : Progressed dateParse run look t entry)
    (hidle : .started ∈ run.prefs.categories → look.driven ≠ [] → isIdle look.env = false)
    (hagain : again.progress = entry.progress) :
    (overseeStart (run.again t) look again).2.notifications = [] := by
  have hwarmed : ¬ (look.env.phase = some "warming" ∧ again.warmed = false) := by
    rintro ⟨hphase, hcold⟩
    have hwarm : again.warmed = true := (congrArg Progress.warmed hagain).trans (h.warmed hphase)
    simp [hwarm] at hcold
  unfold overseeStart overseeWarming overseeDriving
  rw [if_neg hwarmed]
  cases hdriven : look.driven with
  | nil => rfl
  | cons first rest =>
      have hne : look.driven ≠ [] := by simp [hdriven]
      by_cases hon : .started ∈ run.prefs.categories
      · have hnotified : again.driveNotified = true :=
          (congrArg Progress.driveNotified hagain).trans (h.driving hne (hidle hon hne)).1
        simp [hnotified]
      · dsimp only
        split_ifs
        · rfl
        · rw [event_off hon]
          rfl

/-- Before the next due time nothing in a remembered progress is new. -/
theorem progressed_silent {entry again : WorkspaceEntry}
    (h : Progressed dateParse run look t entry) (hagain : again.progress = entry.progress) :
    (overseeProgress dateParse (run.again t) look
      (overseeStart (run.again t) look again).1).2.notifications = [] := by
  obtain ⟨-, herrors, hstuckAt, -, -, hreleased⟩ :=
    overseeStart_fields (run.again t) look again
  generalize (overseeStart (run.again t) look again).1 = started at *
  have hsame : quietSince dateParse look started = quietSince dateParse look entry := by
    refine quietSince_congr ?_ ?_
    · exact herrors.trans (congrArg Progress.errorsAt hagain)
    · intro hnone
      exact (hreleased hnone).2.1.trans (congrArg Progress.drivenAt hagain)
  have hdrove : isIdle look.env = false → started.drove = true → entry.drove = true := by
    intro hawake hstarted
    by_cases hnone : look.driven = []
    · exact ((congrArg Progress.drove hagain).symm.trans (hreleased hnone).1.symm).trans hstarted
    · exact (h.driving hnone hawake).2
  unfold overseeProgress
  dsimp only
  rw [hsame, append_notifications, List.append_eq_nil_iff]
  have hclear := clearStuck_progress (quietSince dateParse look entry) started
  refine ⟨?_, ?_⟩
  · refine overseeFinish_silent ?_
    intro newest quiet hgreen hquiet hcdrove hbuilding hcfinished
    have hnone : look.driven = [] := by
      by_contra hne
      simp [releasedGreen, hne] at hgreen
    have hfinished : entry.finished = false :=
      ((congrArg Progress.finished hagain).symm.trans (hreleased hnone).2.2.symm).trans
        ((congrArg Progress.finished hclear).symm.trans hcfinished)
    have hentry : entry.drove = true :=
      ((congrArg Progress.drove hagain).symm.trans (hreleased hnone).1.symm).trans
        ((congrArg Progress.drove hclear).symm.trans hcdrove)
    exact h.finish newest quiet hgreen hquiet hentry hbuilding hfinished
  · refine overseeStuck_silent ?_
    intro device quiet hdevice hquiet hedrove hbuilding hgreen hestuck
    obtain ⟨hfdrove, hawake, -⟩ := endRun_drove hedrove
    have hfinish := overseeFinish_fields dateParse (run.again t) look
      (quietSince dateParse look entry) (clearStuck (quietSince dateParse look entry) started)
    have hentry : entry.drove = true := hdrove hawake
      ((congrArg Progress.drove hclear).symm.trans
        ((congrArg Progress.drove hfinish).symm.trans hfdrove))
    obtain ⟨hkept, hwait⟩ := h.stuck device quiet hdevice hquiet hentry hbuilding hgreen
    refine hwait ?_
    rw [(endRun_kept _ _).2.2.1] at hestuck
    have hcleared : (clearStuck (quietSince dateParse look entry) started).stuckAt = none :=
      (congrArg Progress.stuckAt hfinish).symm.trans hestuck
    have hbefore : started.stuckAt = entry.stuckAt :=
      hstuckAt.trans (congrArg Progress.stuckAt hagain)
    cases hentryStuck : entry.stuckAt with
    | none => rfl
    | some stuckAt =>
        have hle := hkept stuckAt hentryStuck
        rw [hentryStuck] at hbefore
        have hnotLater : ¬ stuckAt < quiet := by omega
        simp [clearStuck, hquiet, hbefore, isLater, hnotLater] at hcleared

/-! ## Attention -/

variable {env : OversightEnvironment}

@[simp]
theorem attentionLook_now (run : Run) : run.attentionLook.now = run.now := rfl

@[simp]
theorem again_now (run : Run) (t : Int) : (run.again t).now = t := rfl

/-- The times that a fold keeps the earliest of, among those after `now`. -/
theorem foldl_earliest_lt {now : Int} {dues : List (Option Int)} {start : Option Int} :
    (∀ w, dues.foldl (fun wakeAt due => earliest wakeAt (due.filter (now < ·))) start = some w →
      t < w) ↔
      (∀ w, start = some w → t < w) ∧ ∀ due ∈ dues, ∀ w, due = some w → now < w → t < w := by
  induction dues generalizing start with
  | nil => simp
  | cons due dues ih =>
      rw [List.foldl_cons, ih, earliest_lt]
      simp only [Option.filter_eq_some_iff, List.forall_mem_cons, decide_eq_true_eq, and_imp]
      tauto

/-- The times at which something in a workspace becomes an item. -/
def attentionDues (dateParse : String → Option Int) (look : AttentionLook)
    (env : OversightEnvironment) : List (Option Int) :=
  (env.physicalDevices.map fun device => time dateParse device.expiresAt) ++
    if (drivenDevice look env).isSome then []
    else env.remoteDevices.map (easDue dateParse look)

theorem attentionWakeAt_lt (look : AttentionLook) :
    (∀ w, attentionWakeAt dateParse look env = some w → t < w) ↔
      ∀ due ∈ attentionDues dateParse look env, ∀ w, due = some w → look.now < w → t < w := by
  unfold attentionWakeAt attentionDues
  rw [foldl_earliest_lt]
  simp

theorem isAtMost_of_again {due : Option Int} {now : Int}
    (hdue : ∀ w, due = some w → now < w → t < w) (h : isAtMost due t = true) :
    isAtMost due now = true := by
  cases due with
  | none => simp [isAtMost] at h
  | some due =>
      simp only [isAtMost, Option.any_some, decide_eq_true_eq] at h ⊢
      have := hdue due rfl
      omega

theorem signingCode_of_again (hnow : run.now ≤ t) {platform : BuildPlatform} {code : String}
    (h : signingCode dateParse (run.again t).attentionLook env platform = some code) :
    signingCode dateParse run.attentionLook env platform = some code := by
  unfold signingCode at h ⊢
  cases hlast : env.lastBuilds.get platform with
  | none => simp [hlast] at h
  | some last =>
      simp only [hlast, Option.bind_some, Option.ite_none_right_eq_some, Bool.and_eq_true] at h ⊢
      refine ⟨⟨h.1.1, ?_⟩, h.2⟩
      have hrecent := h.1.2
      unfold isRecent at hrecent ⊢
      simp only [Bool.or_eq_true] at hrecent ⊢
      rcases hrecent with hlive | hyoung
      · exact .inl hlive
      · refine .inr ?_
        obtain ⟨ended, hended, hage⟩ := (Option.any_eq_true _ _).mp hyoung
        have hage' : t - ended < STALE_MS := of_decide_eq_true hage
        refine (Option.any_eq_true _ _).mpr ⟨ended, hended, decide_eq_true ?_⟩
        show run.now - ended < STALE_MS
        omega

/-- An item that needs attention at `t` needed it at the first look already. -/
theorem attentionItems_of_again (hnow : run.now ≤ t)
    (hdue : ∀ due ∈ attentionDues dateParse run.attentionLook env, ∀ w, due = some w →
      run.now < w → t < w) {item : NeedsAttentionItem}
    (hitem : item ∈ attentionItems dateParse (run.again t).attentionLook env)
    (hcategory : item.category = .attention) :
    ∃ before ∈ attentionItems dateParse run.attentionLook env,
      before.category = .attention ∧ before.id = item.id := by
  have hbuild : ∀ platform, item ∈ buildItems dateParse (run.again t).attentionLook env platform →
      item ∈ buildItems dateParse run.attentionLook env platform := by
    intro platform hmem
    unfold buildItems at hmem ⊢
    cases hcode : signingCode dateParse (run.again t).attentionLook env platform with
    | some code =>
        rw [signingCode_of_again hnow hcode]
        rw [hcode] at hmem
        exact hmem
    | none =>
        simp only [hcode] at hmem
        split at hmem
        · simp at hmem
        · split_ifs at hmem
          · rw [List.mem_singleton] at hmem
            simp [hmem] at hcategory
          · simp at hmem
  have hlease : item ∈ leaseItems dateParse (run.again t).attentionLook env →
      item ∈ leaseItems dateParse run.attentionLook env := by
    unfold leaseItems
    rw [List.mem_filterMap, List.mem_filterMap]
    rintro ⟨device, hdevice, hsome⟩
    refine ⟨device, hdevice, ?_⟩
    have hdevice' : time dateParse device.expiresAt ∈
        attentionDues dateParse run.attentionLook env :=
      List.mem_append_left _ (List.mem_map_of_mem hdevice)
    by_cases hlate : isAtMost (time dateParse device.expiresAt) t = true
    · have hnowDue := isAtMost_of_again (hdue _ hdevice') hlate
      simp only [attentionLook_now, again_now, hlate] at hsome
      simp only [attentionLook_now, hnowDue]
      exact hsome
    · simp [hlate] at hsome
  have heas : item ∈ easItems dateParse (run.again t).attentionLook env →
      ∃ before ∈ easItems dateParse run.attentionLook env,
        before.category = .attention ∧ before.id = item.id := by
    unfold easItems
    have hsame : drivenDevice (run.again t).attentionLook env =
      drivenDevice run.attentionLook env := rfl
    rw [hsame]
    split_ifs with hdriven
    · exact fun hmem => absurd hmem (List.not_mem_nil)
    · rw [List.mem_filterMap]
      rintro ⟨session, hsession, hsome⟩
      have hsession' : easDue dateParse run.attentionLook session ∈
          attentionDues dateParse run.attentionLook env := by
        unfold attentionDues
        rw [if_neg hdriven]
        exact List.mem_append_right _ (List.mem_map_of_mem hsession)
      have hsameDue : easDue dateParse (run.again t).attentionLook session =
        easDue dateParse run.attentionLook session := rfl
      rw [hsameDue] at hsome
      by_cases hlate : isAtMost (easDue dateParse run.attentionLook session) t = true
      · have hnowDue := isAtMost_of_again (hdue _ hsession') hlate
        simp only [attentionLook_now, again_now, hlate, if_true, Option.some.injEq] at hsome
        refine ⟨easItem dateParse run.attentionLook env session,
          List.mem_filterMap.mpr ⟨session, hsession, if_pos hnowDue⟩, rfl, ?_⟩
        rw [← hsome]
        rfl
      · simp [hlate] at hsome
  have hstuck : item ∉ stuckItems dateParse (run.again t).attentionLook env := by
    intro hmem
    unfold stuckItems at hmem
    split at hmem
    · split_ifs at hmem
      · simp at hmem
      · rw [List.mem_singleton] at hmem
        simp [hmem] at hcategory
    · simp at hmem
  simp only [attentionItems, List.mem_append] at hitem ⊢
  rcases hitem with ((((hissue | hios) | handroid) | hleased) | hsession) | hstucked
  · exact ⟨item, .inl (.inl (.inl (.inl (.inl hissue)))), hcategory, rfl⟩
  · exact ⟨item, .inl (.inl (.inl (.inl (.inr (hbuild .ios hios))))), hcategory, rfl⟩
  · exact ⟨item, .inl (.inl (.inl (.inr (hbuild .android handroid)))), hcategory, rfl⟩
  · exact ⟨item, .inl (.inl (.inr (hlease hleased))), hcategory, rfl⟩
  · obtain ⟨before, hbefore, hat, hid⟩ := heas hsession
    exact ⟨before, .inl (.inr hbefore), hat, hid⟩
  · exact absurd hstucked hstuck

theorem pendingItems_of_again (hnow : run.now ≤ t)
    (hdue : ∀ due ∈ attentionDues dateParse run.attentionLook env, ∀ w, due = some w →
      run.now < w → t < w) {pending : NeedsAttentionItem × OversightTarget}
    (hpending : pending ∈ pendingItems dateParse (run.again t) env) :
    pending.1.id ∈ (pendingItems dateParse run env).map fun each => each.1.id := by
  obtain ⟨item, hitem, hsome⟩ := List.mem_filterMap.mp hpending
  split_ifs at hsome with hcategory
  obtain ⟨target, htarget, rfl⟩ := Option.map_eq_some_iff.mp hsome
  obtain ⟨before, hbefore, hat, hid⟩ :=
    attentionItems_of_again hnow hdue hitem (by simpa using hcategory)
  have hsame : itemTarget env before = some target := by
    rw [← htarget]
    unfold itemTarget
    rw [hid]
  refine List.mem_map.mpr ⟨(before, target), List.mem_filterMap.mpr ⟨before, hbefore, ?_⟩, hid⟩
  rw [if_neg (by simpa using hat), hsame]
  rfl

/-- Outside quiet hours every pending item is recorded. -/
theorem foldl_overseeItem_attention (hquiet : run.prefs.quiet = false) {known : List String}
    (pending : List (NeedsAttentionItem × OversightTarget)) (sofar : Raised) :
    (pending.foldl (overseeItem run look known) sofar).attention =
      sofar.attention ++ pending.map fun each => each.1.id := by
  induction pending generalizing sofar with
  | nil => simp
  | cons first rest ih =>
      rw [List.foldl_cons, ih]
      unfold overseeItem
      split_ifs
      · simp
      · simp [lasting_settled hquiet]

/-- Known items emit nothing. -/
theorem foldl_overseeItem_emitted {known : List String}
    (pending : List (NeedsAttentionItem × OversightTarget)) (sofar : Raised)
    (h : ∀ each ∈ pending, each.1.id ∈ known) :
    (pending.foldl (overseeItem run look known) sofar).emitted = sofar.emitted := by
  induction pending generalizing sofar with
  | nil => rfl
  | cons first rest ih =>
      rw [List.foldl_cons, ih _ fun each heach => h each (List.mem_cons_of_mem _ heach)]
      have hfirst : first.1.id ∈ known := h first List.mem_cons_self
      simp [overseeItem, hfirst]

theorem overseeAttention_settled (hquiet : run.prefs.quiet = false) (hnow : run.now ≤ t)
    {prev : Option WorkspaceEntry} {entry before again : WorkspaceEntry}
    (hbefore : (overseeAttention dateParse run look prev entry).2.Before t)
    (hattention : before.attention =
      (overseeAttention dateParse run look prev entry).1.attention) :
    (overseeAttention dateParse (run.again t) look (some before) again).2.notifications = [] := by
  have hwoken := (before_append.mp hbefore).1
  have hafter : ∀ w, attentionWakeAt dateParse run.attentionLook look.env = some w →
      run.now < w :=
    (attentionWakeAt_lt run.attentionLook).mpr fun _ _ _ _ hw => hw
  have hwake : ∀ w, attentionWakeAt dateParse run.attentionLook look.env = some w → t < w := by
    intro w hw
    rw [hw] at hwoken
    exact before_wake hwoken (hafter w hw)
  have hdue := (attentionWakeAt_lt run.attentionLook).mp hwake
  have hknown : before.attention =
      (pendingItems dateParse run look.env).map fun each => each.1.id := by
    rw [hattention]
    exact foldl_overseeItem_attention hquiet _ _
  unfold overseeAttention
  rw [append_notifications, List.append_eq_nil_iff]
  refine ⟨?_, ?_⟩
  · split <;> rfl
  · rw [foldl_overseeItem_emitted]
    · rfl
    · intro each heach
      simpa [hknown] using pendingItems_of_again hnow hdue heach

/-! ## A workspace -/

/-- The fields that no rule before those for merges changes. -/
structure Kept where
  seenAt : Int
  pr : Option (Option KnownPullRequest)
  mergedInto : Option String

def WorkspaceEntry.kept (entry : WorkspaceEntry) : Kept where
  seenAt := entry.seenAt
  pr := entry.pr
  mergedInto := entry.mergedInto

variable (dateParse) in
/-- The rules of progress leave what the rules after them remember alone. -/
theorem overseeProgress_rest (run : Run) (look : WorkspaceLook) (entry : WorkspaceEntry) :
    (overseeProgress dateParse run look entry).1.kept = entry.kept := by
  have hclear : ∀ since, (clearStuck since entry).kept = entry.kept := by
    intro since
    unfold clearStuck
    split_ifs <;> rfl
  have hfinish : ∀ since entry,
      (overseeFinish dateParse run look since entry).1.kept = entry.kept := by
    intro since entry
    unfold overseeFinish
    split
    · split_ifs <;> rfl
    · rfl
  have hend : ∀ entry, (endRun look.env entry).kept = entry.kept := by
    intro entry
    unfold endRun
    dsimp only
    split_ifs <;> rfl
  have hstuck : ∀ since entry,
      (overseeStuck dateParse run look since entry).1.kept = entry.kept := by
    intro since entry
    unfold overseeStuck
    split
    · dsimp only
      split_ifs <;> rfl
    · rfl
  exact (hstuck _ _).trans ((hend _).trans ((hfinish _ _).trans (hclear _)))

theorem overseeStart_rest (run : Run) (look : WorkspaceLook) (entry : WorkspaceEntry) :
    (overseeStart run look entry).1.kept = entry.kept := by
  unfold overseeStart overseeDriving overseeWarming
  dsimp only
  split
  · split_ifs <;> rfl
  · split_ifs <;> rfl

theorem overseePullRequest_mergedInto (run : Run) (look : WorkspaceLook) (entry : WorkspaceEntry) :
    (overseePullRequest run look entry).1.mergedInto = entry.mergedInto := by
  unfold overseePullRequest
  split
  · rfl
  · rfl
  · dsimp only
    split
    · rfl
    · split_ifs <;> rfl

theorem overseeBranch_pr (run : Run) (look : WorkspaceLook) (prev : Option WorkspaceEntry)
    (entry : WorkspaceEntry) : (overseeBranch run look prev entry).1.pr = entry.pr := by
  unfold overseeBranch
  split
  · rfl
  · rfl
  · split_ifs <;> rfl
  · split_ifs <;> rfl

variable (dateParse) in
/-- The entry of a workspace before its rules for merges. -/
def loopedEntry (run : Run) (env : OversightEnvironment) (status : OversightStatus)
    (prev : Option WorkspaceEntry) : WorkspaceEntry :=
  (overseeLoops run (workspaceLook run env status) prev
    (overseeProgress dateParse run (workspaceLook run env status)
      (overseeStart run (workspaceLook run env status) (openEntry run env prev)).1).1).1

theorem loopedEntry_rest (run : Run) (env : OversightEnvironment) (status : OversightStatus)
    (prev : Option WorkspaceEntry) :
    (loopedEntry dateParse run env status prev).kept = (openEntry run env prev).kept :=
  (overseeProgress_rest dateParse _ _ _).trans (overseeStart_rest _ _ _)

/-- What a look leaves of the rules up to the loops. -/
theorem overseeWorkspace_looped (run : Run) (env : OversightEnvironment)
    (status : OversightStatus) (prev : Option WorkspaceEntry) :
    (overseeWorkspace dateParse run env status prev).1.seenAt = run.now ∧
      (overseeWorkspace dateParse run env status prev).1.mergedInto =
        (openEntry run env prev).mergedInto ∧
      (overseeWorkspace dateParse run env status prev).1.loops =
        ⟨(overseeLoop run (workspaceLook run env status) .ios
            (prev.bind fun prev => prev.loops.ios)).1,
          (overseeLoop run (workspaceLook run env status) .android
            (prev.bind fun prev => prev.loops.android)).1⟩ := by
  have hrest : (loopedEntry dateParse run env status prev).kept = _ :=
    loopedEntry_rest run env status prev
  have hmerge := overseeMerge_rest run (workspaceLook run env status) prev
    (loopedEntry dateParse run env status prev)
  exact ⟨(congrArg WorkspaceEntry.seenAt hmerge).trans (congrArg Kept.seenAt hrest),
    (congrArg WorkspaceEntry.mergedInto hmerge).trans (congrArg Kept.mergedInto hrest),
    congrArg WorkspaceEntry.loops hmerge⟩

variable (dateParse) in
theorem overseeProgress_errors (run : Run) (look : WorkspaceLook) (entry : WorkspaceEntry) :
    (overseeProgress dateParse run look entry).1.errors = entry.errors :=
  (congrArg Progress.errors (overseeStuck_fields dateParse run look _ _)).trans
    ((endRun_kept look.env _).2.2.2.trans
      ((congrArg Progress.errors (overseeFinish_fields dateParse run look _ _)).trans
        (congrArg Progress.errors (clearStuck_progress _ entry))))

theorem overseeWorkspace_errors (run : Run) (env : OversightEnvironment)
    (status : OversightStatus) (prev : Option WorkspaceEntry) :
    (overseeWorkspace dateParse run env status prev).1.errors = env.errorsSinceMarker.getD 0 :=
  (congrArg Progress.errors (overseeWorkspace_progress run env status prev)).trans
    ((overseeProgress_errors dateParse _ _ _).trans (overseeStart_fields _ _ _).1)

/-- An entry opened on the entry of the look before, with as many errors. -/
theorem openEntry_progress {run : Run} {prev : WorkspaceEntry}
    (herrors : prev.errors = env.errorsSinceMarker.getD 0) :
    (openEntry run env (some prev)).progress = prev.progress := by
  simp [openEntry, WorkspaceEntry.progress, herrors]

theorem openEntry_mergedInto (run : Run) (before : Option WorkspaceEntry) {prev : WorkspaceEntry}
    (h : prev.mergedInto = (openEntry run env before).mergedInto) :
    (openEntry (run.again t) env (some prev)).mergedInto = prev.mergedInto := by
  unfold openEntry at *
  dsimp only at *
  split
  · rename_i git hgit
    rw [h, hgit]
  · rfl

/-- A second look at a workspace that is not idle while it is driven, unless starts are off. -/
theorem overseeWorkspace_settled (hquiet : run.prefs.quiet = false) (hnow : run.now ≤ t)
    {status : OversightStatus} {prev : Option WorkspaceEntry}
    (hdriven : .started ∈ run.prefs.categories → (workspaceLook run env status).driven ≠ [] →
      isIdle env = false) (hbefore : (overseeWorkspace dateParse run env status prev).2.Before t) :
    (overseeWorkspace dateParse (run.again t) env status
      (some (overseeWorkspace dateParse run env status prev).1)).2.notifications = [] := by
  obtain ⟨-, hbefore⟩ := before_append.mp hbefore
  obtain ⟨hprogressing, hbefore⟩ := before_append.mp hbefore
  obtain ⟨-, hbefore⟩ := before_append.mp hbefore
  obtain ⟨-, hattending⟩ := before_append.mp hbefore
  generalize hentry : (overseeWorkspace dateParse run env status prev).1 = entry
  have hprogress : entry.progress = (overseeProgress dateParse run (workspaceLook run env status)
      (overseeStart run (workspaceLook run env status) (openEntry run env prev)).1).1.progress := by
    rw [← hentry]
    exact overseeWorkspace_progress run env status prev
  have hopen : (openEntry (run.again t) env (some entry)).progress = entry.progress := by
    refine openEntry_progress ?_
    rw [← hentry]
    exact overseeWorkspace_errors run env status prev
  have hmerged : (openEntry (run.again t) env (some entry)).mergedInto = entry.mergedInto := by
    refine openEntry_mergedInto run prev ?_
    rw [← hentry]
    exact (overseeWorkspace_looped run env status prev).2.1
  have hpr : entry.pr = (overseePullRequest run (workspaceLook run env status)
      (loopedEntry dateParse run env status prev)).1.pr := by
    rw [← hentry]
    exact overseeBranch_pr _ _ _ _
  have hloops : entry.loops =
      ⟨(overseeLoop run (workspaceLook run env status) .ios
          (prev.bind fun prev => prev.loops.ios)).1,
        (overseeLoop run (workspaceLook run env status) .android
          (prev.bind fun prev => prev.loops.android)).1⟩ := by
    rw [← hentry]
    exact (overseeWorkspace_looped run env status prev).2.2
  obtain ⟨-, -, -, hwarmed, hdriving, -⟩ :=
    overseeStart_fields run (workspaceLook run env status) (openEntry run env prev)
  have hsettled := overseeProgress_progressed hquiet hwarmed hdriving hprogressing
  have hagain := hopen.trans hprogress
  have hlook : workspaceLook (run.again t) env status = workspaceLook run env status := rfl
  unfold overseeWorkspace
  rw [hlook]
  simp only [append_notifications, List.append_eq_nil_iff]
  refine ⟨overseeStart_silent hsettled hdriven hagain, progressed_silent hsettled hagain, ?_, ?_, ?_⟩
  · unfold overseeLoops
    simp only [append_notifications, List.append_eq_nil_iff, Option.bind_some, hloops]
    exact ⟨overseeLoop_settled hquiet, overseeLoop_settled hquiet⟩
  · unfold overseeMerge
    simp only [append_notifications, List.append_eq_nil_iff]
    have hrest : (loopedEntry dateParse (run.again t) env status (some entry)).kept = _ :=
      loopedEntry_rest (run.again t) env status (some entry)
    have hknown : (loopedEntry dateParse (run.again t) env status (some entry)).pr = entry.pr :=
      congrArg Kept.pr hrest
    refine ⟨overseePullRequest_settled (hknown.trans hpr), overseeBranch_settled ?_⟩
    exact (overseePullRequest_mergedInto _ _ _).trans ((congrArg Kept.mergedInto hrest).trans hmerged)
  · refine overseeAttention_settled hquiet hnow hattending ?_
    rw [← hentry]
    rfl

end

end Stim.Oversight
