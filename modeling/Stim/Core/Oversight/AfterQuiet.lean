import Stim.Core.Oversight.Workspaces

/-!
# Lasting problems and quiet hours

A problem that began in quiet hours is remembered as not notified, and the first look after them
at which it is due notifies it.  With the bounds on repeats this gives what a run of looks
notifies of the disk, the memory, the link, stuck work and build loops.
-/

namespace Stim.Oversight

section
variable {run : Run} {notification : OversightNotification}

theorem lasting_quiet (hbaseline : run.baseline = false)
    (hon : notification.category ∈ run.prefs.categories) (hquiet : run.prefs.quiet = true) :
    lasting run notification = (false, .nothing) := by
  simp [lasting, hbaseline, hon, hquiet]

theorem lasting_loud (hbaseline : run.baseline = false)
    (hon : notification.category ∈ run.prefs.categories) (hquiet : run.prefs.quiet = false) :
    lasting run notification = (true, ⟨[notification], none⟩) := by
  simp [lasting, hbaseline, hon, hquiet]

theorem settle_due {held : Held} {due : Int} (hheld : held.notified = false)
    (hdue : due ≤ run.now) :
    settle run held due notification =
      ({ held with notified := (lasting run notification).1 }, (lasting run notification).2) := by
  simp [settle, hheld, Int.not_lt.mpr hdue]

end

section
variable {dateParse : String → Option Int} {w : Watch} {i j n : Nat}

theorem run_baseline (hn : 0 < n) : (w.run dateParse n).baseline = false := by
  cases n with
  | zero => exact absurd hn (Nat.lt_irrefl 0)
  | succ n => rfl

theorem run_on {category : Category} (h : category ∈ w.categories) :
    category ∈ (w.run dateParse n).prefs.categories := by
  show category ∈ (w.calls n).prefs.categories
  rw [w.fixed n]
  exact h

end

/-! ## The disk -/

/-- Whether the disk is low after a look that measured `volumes`, low before it or not. -/
def diskLow (low : Bool) (volumes : Option (List Nat)) : Bool :=
  match volumes with
  | none => low
  | some volumes =>
      volumes.min?.any (· < if low then DISK_RECOVERED_BYTES else DISK_CRITICAL_BYTES)

/-- Whether the disk is low before look `n`, as the looks measured it. -/
def Watch.diskLow (w : Watch) : Nat → Bool
  | 0 => false
  | n + 1 => Oversight.diskLow (w.diskLow n) (w.calls n).input.volumes

def Unnotified (held : Option Held) : Prop := ∀ each, held = some each → each.notified = false

section
variable (run : Run) (held : Option Held)

/-- The disk rule in cases: not measured, not low, and low. -/
theorem overseeDisk_cases :
    (run.input.volumes = none ∧ overseeDisk run held = (held, .nothing)) ∨
      (diskLow held.isSome run.input.volumes = false ∧ overseeDisk run held = (none, .nothing)) ∨
      (diskLow held.isSome run.input.volumes = true ∧ ∃ body, overseeDisk run held =
        (some (settle run (held.getD ⟨run.now, false⟩) run.now
          (machineNotification run "disk" body)).1,
        (settle run (held.getD ⟨run.now, false⟩) run.now
          (machineNotification run "disk" body)).2)) := by
  unfold overseeDisk
  cases run.input.volumes with
  | none => exact .inl ⟨rfl, rfl⟩
  | some volumes =>
      refine .inr ?_
      simp only [diskLow]
      cases volumes.min? with
      | none => exact .inl ⟨rfl, rfl⟩
      | some lowest =>
          by_cases hlow : lowest < diskFloor held
          · refine .inr ⟨by simpa [diskFloor] using hlow,
              formatBytes lowest ++ " free, below Stim's floor", ?_⟩
            simp only [hlow, if_true]
          · exact .inl ⟨by simpa [diskFloor] using hlow, by simp only [hlow, if_false]⟩

theorem overseeDisk_isSome :
    (overseeDisk run held).1.isSome = diskLow held.isSome run.input.volumes := by
  rcases overseeDisk_cases run held with ⟨hunknown, hdisk⟩ | ⟨hlow, hdisk⟩ | ⟨hlow, body, hdisk⟩
  · rw [hdisk, hunknown]
    rfl
  · rw [hdisk, hlow]
    rfl
  · rw [hdisk, hlow]
    rfl

variable {run held}

theorem getD_unnotified (hheld : Unnotified held) :
    (held.getD ⟨run.now, false⟩).notified = false := by
  cases held with
  | none => rfl
  | some each => exact hheld each rfl

variable (hbaseline : run.baseline = false) (hon : .machine ∈ run.prefs.categories)
  (hheld : Unnotified held)
include hbaseline hon hheld

/-- Quiet hours leave a low disk unnotified. -/
theorem overseeDisk_unnotified (hquiet : run.prefs.quiet = true ∨ run.input.volumes = none) :
    Unnotified (overseeDisk run held).1 := by
  rcases overseeDisk_cases run held with ⟨-, hdisk⟩ | ⟨-, hdisk⟩ | ⟨hlow, body, hdisk⟩
  · rw [hdisk]
    exact hheld
  · rw [hdisk]
    nofun
  · rcases hquiet with hquiet | hunknown
    · rw [hdisk, settle_due (getD_unnotified hheld) (Int.le_refl _),
        lasting_quiet hbaseline hon hquiet]
      rintro each ⟨⟩
      rfl
    · rw [overseeDisk, hunknown]
      exact hheld

theorem overseeDisk_notifies (hloud : run.prefs.quiet = false) (hknown : run.input.volumes ≠ none)
    (hlow : diskLow held.isSome run.input.volumes = true) :
    ∃ body, machineNotification run "disk" body ∈ (overseeDisk run held).2.notifications := by
  rcases overseeDisk_cases run held with ⟨hunknown, -⟩ | ⟨hnot, -⟩ | ⟨-, body, hdisk⟩
  · exact absurd hunknown hknown
  · simp [hlow] at hnot
  · refine ⟨body, ?_⟩
    rw [hdisk, settle_due (getD_unnotified hheld) (Int.le_refl _), lasting_loud hbaseline hon hloud]
    exact List.mem_singleton_self _

end

section
variable {dateParse : String → Option Int} {w : Watch} {i j n : Nat}

theorem state_diskLow (dateParse : String → Option Int) (w : Watch) (n : Nat) :
    ((w.state dateParse n).bind OversightState.disk).isSome = w.diskLow n := by
  induction n with
  | zero => rfl
  | succ n ih =>
      have hnext := overseeDisk_isSome (w.run dateParse n)
        ((w.state dateParse n).bind OversightState.disk)
      rw [ih] at hnext
      exact hnext

/-- A low disk that began in quiet hours is notified by the first later look that measures it. -/
theorem disk_after_quiet (hi : 0 < i) (hij : i < j) (hbegan : w.diskLow i = false)
    (hquiet : ∀ k, i ≤ k → k < j →
      (w.calls k).prefs.quiet = true ∨ (w.calls k).input.volumes = none)
    (hloud : (w.calls j).prefs.quiet = false) (hknown : (w.calls j).input.volumes ≠ none)
    (hlow : w.diskLow (j + 1) = true) : (w.result dateParse j).notifiesMachine "disk" := by
  have hheld : ∀ n, i ≤ n → n ≤ j →
      Unnotified ((w.state dateParse n).bind OversightState.disk) := by
    intro n hin
    induction n, hin using Nat.le_induction with
    | base =>
        intro _ each heach
        have hnone := state_diskLow dateParse w i
        rw [heach, hbegan] at hnone
        simp at hnone
    | succ n hin ih =>
        intro hnj
        have hn : (w.run dateParse n).baseline = false := run_baseline (Nat.lt_of_lt_of_le hi hin)
        exact overseeDisk_unnotified hn (run_on w.machine) (ih (Nat.le_of_succ_le hnj))
          (hquiet n hin hnj)
  have hj : (w.run dateParse j).baseline = false := run_baseline (Nat.lt_trans hi hij)
  obtain ⟨body, hbody⟩ := overseeDisk_notifies hj (run_on w.machine)
    (hheld j (Nat.le_of_lt hij) (Nat.le_refl j)) hloud hknown
    (by rw [state_diskLow]; exact hlow)
  exact ⟨_, mem_overseeRun_of_machine (.inl hbody), rfl, rfl⟩

end

/-! ## The memory -/

/-- Whether the memory is critical before look `n`, as the looks read it. -/
def Watch.memoryCritical (w : Watch) : Nat → Bool
  | 0 => false
  | n + 1 => match (w.calls n).input.memoryPressure with
    | none => w.memoryCritical n
    | some pressure => pressure = "critical"

section
variable {run : Run} {held : Option Held} {known : Bool}

theorem overseeMemory_unknown (hunknown : run.input.memoryPressure = none) :
    overseeMemory run held known = (held, .nothing) := by
  simp [overseeMemory, hunknown]

/-- A critical reading after a first one. -/
theorem overseeMemory_critical (hbaseline : run.baseline = false)
    (hcritical : run.input.memoryPressure = some "critical") :
    overseeMemory run held true =
      (some (settle run (held.getD ⟨run.now, false⟩)
          ((held.getD ⟨run.now, false⟩).since + MEMORY_SETTLE_MS)
          (machineNotification run "memory" "Memory pressure is critical")).1,
        (settle run (held.getD ⟨run.now, false⟩)
          ((held.getD ⟨run.now, false⟩).since + MEMORY_SETTLE_MS)
          (machineNotification run "memory" "Memory pressure is critical")).2) := by
  simp [overseeMemory, hcritical, heldMemory, hbaseline]

theorem settle_early {each : Held} {due : Int} {notification : OversightNotification}
    (hearly : run.now < due) : (settle run each due notification).1 = each := by
  unfold settle
  split_ifs
  · rfl
  · rfl

end

section
variable {dateParse : String → Option Int} {w : Watch} {i j n : Nat}

theorem state_memoryCritical (dateParse : String → Option Int) (w : Watch) (n : Nat) :
    ((w.state dateParse n).bind OversightState.memory).isSome = w.memoryCritical n := by
  induction n with
  | zero => rfl
  | succ n ih =>
      show (overseeMemory (w.run dateParse n) ((w.state dateParse n).bind OversightState.memory)
        ((w.state dateParse n).any OversightState.memoryKnown)).1.isSome = _
      have hinput : (w.run dateParse n).input = (w.calls n).input := rfl
      unfold overseeMemory Watch.memoryCritical
      rw [hinput]
      cases (w.calls n).input.memoryPressure with
      | none => exact ih
      | some pressure =>
          by_cases hcritical : pressure = "critical"
          · simp [hcritical]
          · simp [hcritical]

theorem state_memoryKnown (hread : ∃ m, m < n ∧ (w.calls m).input.memoryPressure ≠ none) :
    (w.state dateParse n).any OversightState.memoryKnown = true := by
  obtain ⟨m, hm, hpressure⟩ := hread
  induction n, hm using Nat.le_induction with
  | base =>
      show ((w.calls m).input.memoryPressure.isSome || _) = true
      simp [Option.isSome_iff_ne_none.mpr hpressure]
  | succ n _ ih =>
      show ((w.calls n).input.memoryPressure.isSome ||
        (w.state dateParse n).any OversightState.memoryKnown) = true
      rw [ih, Bool.or_true]

variable (hread : ∃ m, m < i ∧ (w.calls m).input.memoryPressure ≠ none)
  (hbegan : w.memoryCritical i = false)
  (hcritical : (w.calls i).input.memoryPressure = some "critical")
  (hlasts : ∀ k, i < k → k < j → ¬ (w.calls k).input.MemoryRecovered)
  (hquiet : ∀ k, i < k → k < j → (w.calls k).prefs.quiet = true ∨
    (w.calls k).input.memoryPressure = none ∨
    (w.calls k).now < (w.calls i).now + MEMORY_SETTLE_MS)
include hread

theorem read_known (hin : i ≤ n) :
    (w.run dateParse n).baseline = false ∧
      (w.state dateParse n).any OversightState.memoryKnown = true := by
  obtain ⟨m, hm, hpressure⟩ := hread
  have hmn : m < n := Nat.lt_of_lt_of_le hm hin
  exact ⟨run_baseline (Nat.zero_lt_of_lt hmn), state_memoryKnown ⟨m, hmn, hpressure⟩⟩

include hbegan hcritical hlasts hquiet

/-- The quiet hours leave the memory as the look that found it critical did. -/
theorem memory_held (hin : i + 1 ≤ n) (hnj : n ≤ j) :
    (w.state dateParse n).bind OversightState.memory = some ⟨(w.calls i).now, false⟩ := by
  induction n, hin using Nat.le_induction with
  | base =>
      obtain ⟨hbaseline, hknown⟩ : (w.run dateParse i).baseline = false ∧ _ :=
        read_known hread (Nat.le_refl i)
      show (overseeMemory (w.run dateParse i) _ _).1 = _
      have hnone := state_memoryCritical dateParse w i
      rw [hbegan, Option.isSome_eq_false_iff, Option.isNone_iff_eq_none] at hnone
      rw [hknown, hnone, overseeMemory_critical hbaseline hcritical, settle_early]
      · rfl
      · show (w.calls i).now < (w.calls i).now + MEMORY_SETTLE_MS
        unfold MEMORY_SETTLE_MS
        omega
  | succ n hin ih =>
      have hin' : i < n := hin
      obtain ⟨hbaseline, hknown⟩ : (w.run dateParse n).baseline = false ∧ _ :=
        read_known hread (Nat.le_of_lt hin')
      show (overseeMemory (w.run dateParse n) _ _).1 = _
      rw [ih (Nat.le_of_succ_le hnj), hknown]
      cases hpressure : (w.calls n).input.memoryPressure with
      | none => rw [overseeMemory_unknown hpressure]
      | some pressure =>
          obtain rfl : pressure = "critical" := by
            by_contra hother
            exact hlasts n hin' hnj ⟨pressure, hpressure, hother⟩
          rw [overseeMemory_critical hbaseline hpressure, Option.getD_some]
          by_cases hearly : (w.calls n).now < (w.calls i).now + MEMORY_SETTLE_MS
          · rw [settle_early hearly]
          · have hq : (w.run dateParse n).prefs.quiet = true := by
              rcases hquiet n hin' hnj with hq | hunknown | hsoon
              · exact hq
              · simp [hpressure] at hunknown
              · exact absurd hsoon hearly
            rw [settle_due rfl (Int.not_lt.mp hearly),
              lasting_quiet hbaseline (run_on w.machine) hq]

/-- A critical memory that began in quiet hours, after a first reading, is notified by the first
later look that reads it when it has lasted a minute. -/
theorem memory_after_quiet (hij : i < j) (hloud : (w.calls j).prefs.quiet = false)
    (hstill : (w.calls j).input.memoryPressure = some "critical")
    (hdue : (w.calls i).now + MEMORY_SETTLE_MS ≤ (w.calls j).now) :
    (w.result dateParse j).notifiesMachine "memory" := by
  obtain ⟨hbaseline, hknown⟩ : (w.run dateParse j).baseline = false ∧ _ :=
    read_known hread (Nat.le_of_lt hij)
  refine ⟨machineNotification (w.run dateParse j) "memory" "Memory pressure is critical",
    mem_overseeRun_of_machine (.inr ?_), rfl, rfl⟩
  show _ ∈ (overseeMemory (w.run dateParse j) _ _).2.notifications
  rw [memory_held hread hbegan hcritical hlasts hquiet hij (Nat.le_refl j), hknown,
    overseeMemory_critical hbaseline hstill, Option.getD_some, settle_due rfl hdue,
    lasting_loud hbaseline (run_on w.machine) hloud]
  exact List.mem_singleton_self _

end

/-! ## Loops -/

section
variable {run : Run} {look : WorkspaceLook} {platform : BuildPlatform} {before : Option Loop}
  {cause : String}

/-- Quiet hours leave a loop unnotified. -/
theorem overseeLoop_unnotified (hbaseline : run.baseline = false)
    (hon : .looping ∈ run.prefs.categories) (hbefore : before ≠ some ⟨cause, true⟩)
    (hquiet : run.prefs.quiet = true) :
    (overseeLoop run look platform before).1 ≠ some ⟨cause, true⟩ := by
  intro hafter
  obtain ⟨streak, hstreak, rfl, hcount⟩ := overseeLoop_notified hafter
  rw [overseeLoop_some hstreak, if_neg (Nat.not_lt.mpr hcount), if_neg hbefore] at hafter
  simp [lasting_quiet hbaseline (show (look.notify run .looping _ _ _).category ∈ _ from hon)
    hquiet] at hafter

theorem overseeLoop_notifies (run : Run) (look : WorkspaceLook) {streak : FailureStreak}
    (hbaseline : run.baseline = false) (hon : .looping ∈ run.prefs.categories)
    (hloud : run.prefs.quiet = false)
    (hstreak : failureStreak (look.env.builds.get platform) = some streak)
    (hcount : LOOP_COUNT ≤ streak.count) (hbefore : before ≠ some ⟨streak.cause.key, true⟩) :
    ∃ x ∈ (overseeLoop run look platform before).2.notifications, x.category = .looping ∧
      x.target = .build look.env.path platform := by
  rw [overseeLoop_some hstreak, if_neg (Nat.not_lt.mpr hcount), if_neg hbefore]
  generalize hnotify : look.notify run .looping (attentionBody (streak.message platform))
    (.build look.env.path platform) ("looping-" ++ platform.name) = notification
  have hcategory : notification.category ∈ run.prefs.categories := hnotify ▸ hon
  refine ⟨notification, ?_, hnotify ▸ rfl, hnotify ▸ rfl⟩
  simp only [lasting_loud hbaseline hcategory hloud]
  exact List.mem_singleton_self _

end

section
variable {dateParse : String → Option Int} {w : Watch} {path : String} {platform : BuildPlatform}
  {cause : String} {i j n : Nat}

/-- Look `i` sees a loop that no look before saw, or whose last episode has ended. -/
def Watch.LoopBegins (w : Watch) (path : String) (platform : BuildPlatform) (cause : String)
    (i : Nat) : Prop :=
  (w.calls i).input.Loops path platform cause ∧
    ∀ m, m < i → (w.calls m).input.Loops path platform cause →
      ∃ k, m < k ∧ k < i ∧ w.LoopEnds path platform cause k

/-- A loop remembered as notified was seen, and no look since has ended it. -/
theorem loop_seen (h : w.loop dateParse path platform n = some ⟨cause, true⟩) :
    ∃ m, m < n ∧ (w.calls m).input.Loops path platform cause ∧
      ∀ k, m < k → k < n → ¬ w.LoopEnds path platform cause k := by
  induction n with
  | zero => simp [Watch.loop, Watch.entry, Watch.state, entryBefore] at h
  | succ n ih =>
      cases hlisted : (w.calls n).input.environment path with
      | some env =>
          obtain ⟨status, hstatus, henv, rfl⟩ := environment_mem hlisted
          rw [loop_listed hstatus henv] at h
          refine ⟨n, Nat.lt_succ_self n, (loops_iff hstatus henv).mpr (overseeLoop_notified h), ?_⟩
          intro k hnk hkn
          omega
      | none =>
          have hnot : ¬ w.Forgets path n := by
            intro hforgets
            simp [Watch.loop, entry_forgotten hforgets] at h
          simp only [Watch.loop, entry_kept hlisted hnot] at h
          obtain ⟨m, hm, hloops, hsince⟩ := ih h
          refine ⟨m, Nat.lt_succ_of_lt hm, hloops, ?_⟩
          intro k hmk hkn
          rcases Nat.lt_succ_iff_lt_or_eq.mp hkn with hlt | rfl
          · exact hsince k hmk hlt
          · exact fun hends => hends.elim (fun hseen => hseen.1 hlisted) hnot

/-- A loop that began in quiet hours is notified by the first later look that lists it. -/
theorem loop_after_quiet (hi : 0 < i) (hij : i < j) (hbegins : w.LoopBegins path platform cause i)
    (hquiet : ∀ k, i ≤ k → k < j → (w.calls k).prefs.quiet = true ∨
      (w.calls k).input.environment path = none) (hloud : (w.calls j).prefs.quiet = false)
    (hstill : (w.calls j).input.Loops path platform cause) :
    (w.result dateParse j).notifiesLooping path platform := by
  have hloop : ∀ n, i ≤ n → n ≤ j → w.loop dateParse path platform n ≠ some ⟨cause, true⟩ := by
    intro n hin
    induction n, hin using Nat.le_induction with
    | base =>
        intro _ hnotified
        obtain ⟨m, hm, hloops, hsince⟩ := loop_seen hnotified
        obtain ⟨k, hmk, hki, hends⟩ := hbegins.2 m hm hloops
        exact hsince k hmk hki hends
    | succ n hin ih =>
        intro hnj
        have hbefore := ih (Nat.le_of_succ_le hnj)
        cases hlisted : (w.calls n).input.environment path with
        | some env =>
            obtain ⟨status, hstatus, henv, rfl⟩ := environment_mem hlisted
            have hq : (w.run dateParse n).prefs.quiet = true :=
              (hquiet n hin hnj).resolve_right (by simp [hlisted])
            rw [loop_listed hstatus henv]
            exact overseeLoop_unnotified (run_baseline (Nat.lt_of_lt_of_le hi hin))
              (run_on w.looping) hbefore hq
        | none =>
            by_cases hforgets : w.Forgets path n
            · simp [Watch.loop, entry_forgotten hforgets]
            · simpa only [Watch.loop, entry_kept hlisted hforgets] using hbefore
  obtain ⟨env, streak, henv, hstreak, rfl, hcount⟩ := hstill
  obtain ⟨status, hstatus, hmem, rfl⟩ := environment_mem henv
  obtain ⟨x, hx, hcategory, htarget⟩ := overseeLoop_notifies (w.run dateParse j)
    (workspaceLook (w.run dateParse j) env status) (run_baseline (Nat.lt_trans hi hij))
    (run_on w.looping) hloud hstreak hcount (hloop j (Nat.le_of_lt hij) (Nat.le_refl j))
  have hrun : (w.run dateParse j).input.status = some status := hstatus
  exact ⟨x, mem_overseeRun_of_workspace hrun hmem (mem_overseeWorkspace_of_loop hx), hcategory,
    htarget⟩

end

/-! ## A run of looks -/

/-- What a run of looks notifies of lasting problems: each once per episode, nothing in quiet
hours, and after them what began in them. -/
structure NotifiesEpisodes (dateParse : String → Option Int) (w : Watch) : Prop where
  disk : ∀ i j, i < j → (w.result dateParse i).notifiesMachine "disk" →
    (w.result dateParse j).notifiesMachine "disk" →
    ∃ k, i < k ∧ k < j ∧ (w.calls k).input.DiskRecovered
  memory : ∀ i j, i < j → (w.result dateParse i).notifiesMachine "memory" →
    (w.result dateParse j).notifiesMachine "memory" →
    ∃ k, i < k ∧ k < j ∧ (w.calls k).input.MemoryRecovered
  link : ∀ i j, i < j → (w.result dateParse i).notifiesMachine "link" →
    (w.result dateParse j).notifiesMachine "link" →
    ∃ k, i < k ∧ k ≤ j ∧ (w.calls k).input.link ≠ (w.calls i).input.link
  stuck : ∀ i j path, i < j → (w.result dateParse i).notifiesStuck path →
    (w.result dateParse j).notifiesStuck path →
    (∀ k, i < k → k < j → (w.calls k).input.status = none ∨
      (w.calls k).input.environment path ≠ none) →
    ∃ before, w.activityAt dateParse path i = some before ∧
      ∃ k, i < k ∧ k ≤ j ∧ ∃ later, w.activityAt dateParse path k = some later ∧ before < later
  looping : ∀ i j path platform cause, i < j →
    (w.result dateParse i).notifiesLooping path platform →
    (w.result dateParse j).notifiesLooping path platform →
    (w.calls i).input.Loops path platform cause → (w.calls j).input.Loops path platform cause →
    ∃ k, i < k ∧ k < j ∧ w.LoopEnds path platform cause k
  quiet : ∀ n, (w.calls n).prefs.quiet = true → (w.result dateParse n).notifications = []
  diskAfterQuiet : ∀ i j, 0 < i → i < j → w.diskLow i = false → w.diskLow (i + 1) = true →
    (∀ k, i ≤ k → k < j → (w.calls k).prefs.quiet = true ∨ (w.calls k).input.volumes = none) →
    (w.calls j).prefs.quiet = false → (w.calls j).input.volumes ≠ none →
    w.diskLow (j + 1) = true → (w.result dateParse j).notifiesMachine "disk"
  memoryAfterQuiet : ∀ i j, (∃ m, m < i ∧ (w.calls m).input.memoryPressure ≠ none) → i < j →
    w.memoryCritical i = false → (w.calls i).input.memoryPressure = some "critical" →
    (∀ k, i < k → k < j → ¬ (w.calls k).input.MemoryRecovered) →
    (∀ k, i < k → k < j → (w.calls k).prefs.quiet = true ∨
      (w.calls k).input.memoryPressure = none ∨
      (w.calls k).now < (w.calls i).now + MEMORY_SETTLE_MS) →
    (w.calls j).prefs.quiet = false → (w.calls j).input.memoryPressure = some "critical" →
    (w.calls i).now + MEMORY_SETTLE_MS ≤ (w.calls j).now →
    (w.result dateParse j).notifiesMachine "memory"
  loopAfterQuiet : ∀ i j path platform cause, 0 < i → i < j →
    w.LoopBegins path platform cause i →
    (∀ k, i ≤ k → k < j → (w.calls k).prefs.quiet = true ∨
      (w.calls k).input.environment path = none) →
    (w.calls j).prefs.quiet = false → (w.calls j).input.Loops path platform cause →
    (w.result dateParse j).notifiesLooping path platform

theorem watch_notifiesEpisodes (dateParse : String → Option Int) (w : Watch) :
    NotifiesEpisodes dateParse w where
  disk := fun _ _ hij => disk_once hij
  memory := fun _ _ hij => memory_once hij
  link := fun _ _ hij => link_once hij
  stuck := fun _ _ _ hij => stuck_once hij
  looping := fun _ _ _ _ _ hij => looping_once hij
  quiet := fun _ hquiet => oversee_quiet hquiet
  diskAfterQuiet := fun _ _ hi hij hbegan _ => disk_after_quiet hi hij hbegan
  memoryAfterQuiet := fun _ _ hread hij hbegan hcritical hlasts hquiet =>
    memory_after_quiet hread hbegan hcritical hlasts hquiet hij
  loopAfterQuiet := fun _ _ _ _ _ hi hij => loop_after_quiet hi hij

/-- A workspace whose last three iOS builds failed at one place. -/
def loopingBuilds : OversightEnvironment where
  path := "/work/app"
  live := false
  phase := some "idle"
  ios := none
  android := none
  slots := []
  worktree := none
  build := none
  issues := []
  physicalDevices := []
  remoteDevices := []
  lastBuilds := ⟨none, none⟩
  builds := ⟨List.replicate 3 ⟨"ios", "failed", none, "2026-01-01T00:00:00Z", none, none,
    [⟨some "App.swift", some 3⟩]⟩, []⟩
  errorsSinceMarker := none
  web := none

def loopingCall (environments : List OversightEnvironment)
    (distinct : (environments.map OversightEnvironment.path).Nodup) (now : Int) : Call where
  input := ⟨"mac", some ⟨environments, [], distinct⟩, none, none, none, fun _ => none, []⟩
  prefs := ⟨[.machine, .stuck, .looping], 15, false⟩
  now
  awakeSince := 0

/-- The workspace fails its builds, is missing from a status two minutes later, and is back with
the builds it had. -/
def missingForTwoMinutes : Watch where
  calls
    | 0 => loopingCall [] (by decide) 0
    | 1 => loopingCall [loopingBuilds] (by decide) 0
    | 2 => loopingCall [] (by decide) FORGET_MS
    | _ + 3 => loopingCall [loopingBuilds] (by decide) FORGET_MS
  categories := [.machine, .stuck, .looping]
  fixed
    | 0 | 1 | 2 | _ + 3 => rfl
  machine := by decide
  stuck := by decide
  looping := by decide
  rising
    | 0 | 1 | 2 => by decide
    | _ + 3 => Int.le_refl _

/-- No look in between sees another streak, and the loop is notified twice. -/
theorem not_looping_once_missingForTwoMinutes :
    ¬ ∀ i j path platform cause, i < j →
      (missingForTwoMinutes.result (fun _ => none) i).notifiesLooping path platform →
      (missingForTwoMinutes.result (fun _ => none) j).notifiesLooping path platform →
      (missingForTwoMinutes.calls i).input.Loops path platform cause →
      (missingForTwoMinutes.calls j).input.Loops path platform cause →
      ∃ k, i < k ∧ k < j ∧ (missingForTwoMinutes.calls k).input.environment path ≠ none ∧
        ¬ (missingForTwoMinutes.calls k).input.Loops path platform cause := by
  intro honce
  have hloops : ∀ n ∈ [1, 3],
      (missingForTwoMinutes.calls n).input.Loops "/work/app" .ios "App.swift:3" := by
    intro n hn
    simp only [List.mem_cons, List.not_mem_nil, or_false] at hn
    rcases hn with rfl | rfl
    · exact ⟨loopingBuilds, _, rfl, rfl, by decide, by decide⟩
    · exact ⟨loopingBuilds, _, rfl, rfl, by decide, by decide⟩
  have hnotifies : ∀ n ∈ [1, 3],
      ∃ x ∈ (missingForTwoMinutes.result (fun _ => none) n).notifications,
        x.category = .looping ∧ x.target = .build "/work/app" .ios := by
    decide +kernel
  obtain ⟨k, hik, hkj, hlisted, -⟩ := honce 1 3 "/work/app" .ios "App.swift:3" (by decide)
    (hnotifies 1 (by decide)) (hnotifies 3 (by decide)) (hloops 1 (by decide))
    (hloops 3 (by decide))
  obtain rfl : k = 2 := by omega
  exact hlisted rfl

end Stim.Oversight
