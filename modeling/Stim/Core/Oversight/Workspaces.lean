import Stim.Core.Oversight.Episodes

/-!
# A workspace along a run

What a run remembers of a workspace: the entry of the last look that listed it, until a status
without it comes two minutes or more later.  From that, a workspace that stays listed is
notified as stuck again only after new activity, and a build loop is notified again only after
the streak broke or the workspace was forgotten.
-/

namespace Stim.Oversight

/-! ## What a look leaves for a workspace -/

theorem find_path {environments : List OversightEnvironment}
    (hdistinct : (environments.map OversightEnvironment.path).Nodup) {env : OversightEnvironment}
    (henv : env ∈ environments) : environments.find? (·.path = env.path) = some env := by
  induction environments with
  | nil => simp at henv
  | cons first rest ih =>
      rw [List.map_cons, List.nodup_cons] at hdistinct
      rcases List.mem_cons.mp henv with rfl | hrest
      · simp
      · have hne : first.path ≠ env.path := by
          intro heq
          exact hdistinct.1 (heq ▸ List.mem_map_of_mem hrest)
        rw [List.find?_cons_of_neg (by simpa using hne)]
        exact ih hdistinct.2 hrest

/-- What a look sees of a workspace. -/
def OversightInput.environment (input : OversightInput) (path : String) :
    Option OversightEnvironment :=
  input.status.bind fun status => status.environments.find? (·.path = path)

section
variable {input : OversightInput} {path : String} {env : OversightEnvironment}
  {status : OversightStatus}

theorem environment_mem (h : input.environment path = some env) :
    ∃ status, input.status = some status ∧ env ∈ status.environments ∧ env.path = path := by
  obtain ⟨status, hstatus, hfind⟩ := Option.bind_eq_some_iff.mp h
  exact ⟨status, hstatus, List.mem_of_find?_eq_some hfind, by simpa using List.find?_some hfind⟩

theorem environment_of_mem (hstatus : input.status = some status)
    (henv : env ∈ status.environments) : input.environment env.path = some env := by
  rw [OversightInput.environment, hstatus]
  exact find_path status.distinct henv

end

section
variable {dateParse : String → Option Int} {previous : Option OversightState} {awakeSince : Int}
  {path : String}

/-- A look without a status leaves every entry. -/
theorem entryBefore_unknown (run : Run) (hstatus : run.input.status = none) :
    entryBefore (some (overseeRun dateParse run previous awakeSince).1) path =
      entryBefore previous path := by
  simp [entryBefore, overseeRun, hstatus]

/-- A look whose status does not list a workspace leaves its entry for two minutes. -/
theorem entryBefore_absent (run : Run) {status : OversightStatus}
    (hstatus : run.input.status = some status) (habsent : run.input.environment path = none) :
    entryBefore (some (overseeRun dateParse run previous awakeSince).1) path =
      (entryBefore previous path).filter fun entry => run.now - entry.seenAt < FORGET_MS := by
  have hnone : ∀ env ∈ status.environments, env.path ≠ path := by
    rw [OversightInput.environment, hstatus] at habsent
    simpa using habsent
  have hlookup : (status.environments.map fun env => (env.path,
      (overseeWorkspace dateParse run env status (entryBefore previous env.path)).1)).lookup path =
        none := by
    rw [List.lookup_eq_none_iff]
    intro each heach
    obtain ⟨env, henv, rfl⟩ := List.mem_map.mp heach
    simpa using fun heq => hnone env henv (Eq.symm heq)
  simp only [entryBefore, overseeRun, hstatus, Option.isNone_some, Bool.false_eq_true, if_false,
    Option.bind_some, keptWorkspaces, overseeWorkspaces, List.map_map, Function.comp_def] at hlookup ⊢
  rw [hlookup]
  rfl

end

/-! ## What a run remembers of a workspace -/

section
variable {dateParse : String → Option Int} {w : Watch} {path : String} {n : Nat}

/-- Look `n` does not list the workspace, two minutes or more after any look that did. -/
def Watch.Forgets (w : Watch) (path : String) (n : Nat) : Prop :=
  (w.calls n).input.status.isSome = true ∧ (w.calls n).input.environment path = none ∧
    ∀ m, m < n → (w.calls m).input.environment path ≠ none →
      (w.calls m).now + FORGET_MS ≤ (w.calls n).now

/-- The entry that look `n` is given. -/
def Watch.entry (dateParse : String → Option Int) (w : Watch) (path : String) (n : Nat) :
    Option WorkspaceEntry :=
  entryBefore (w.state dateParse n) path

theorem entry_unknown (hstatus : (w.calls n).input.status = none) :
    w.entry dateParse path (n + 1) = w.entry dateParse path n :=
  entryBefore_unknown (w.run dateParse n) hstatus

theorem entry_absent {status : OversightStatus} (hstatus : (w.calls n).input.status = some status)
    (habsent : (w.calls n).input.environment path = none) :
    w.entry dateParse path (n + 1) = (w.entry dateParse path n).filter
      fun entry => (w.calls n).now - entry.seenAt < FORGET_MS :=
  entryBefore_absent (w.run dateParse n) hstatus habsent

/-- A look that lists the workspace leaves a new entry. -/
theorem entry_listed {status : OversightStatus} (hstatus : (w.calls n).input.status = some status)
    {env : OversightEnvironment} (henv : env ∈ status.environments) :
    w.entry dateParse env.path (n + 1) =
      some (overseeWorkspace dateParse (w.run dateParse n) env status
        (w.entry dateParse env.path n)).1 := by
  have hrun : (w.run dateParse n).input.status = some status := hstatus
  exact entryBefore_overseeRun hrun henv

theorem Watch.now_le {m : Nat} (w : Watch) (h : m ≤ n) : (w.calls m).now ≤ (w.calls n).now := by
  induction n, h using Nat.le_induction with
  | base => exact Int.le_refl _
  | succ n _ ih => exact Int.le_trans ih (w.rising n)

/-- An entry is as old as the last look that listed its workspace. -/
theorem entry_seenAt {entry : WorkspaceEntry} (h : w.entry dateParse path n = some entry) :
    (∃ m, m < n ∧ (w.calls m).input.environment path ≠ none ∧
      entry.seenAt = (w.calls m).now) ∧
    ∀ m, m < n → (w.calls m).input.environment path ≠ none → (w.calls m).now ≤ entry.seenAt := by
  induction n generalizing entry with
  | zero => simp [Watch.entry, Watch.state, entryBefore] at h
  | succ n ih =>
      cases hlisted : (w.calls n).input.environment path with
      | some env =>
          obtain ⟨status, hstatus, henv, rfl⟩ := environment_mem hlisted
          rw [entry_listed hstatus henv, Option.some.injEq] at h
          have hseen : entry.seenAt = (w.calls n).now := by
            rw [← h]
            exact (overseeWorkspace_looped _ env status _).1
          refine ⟨⟨n, Nat.lt_succ_self n, by simp [hlisted], hseen⟩, ?_⟩
          intro m hm _
          rw [hseen]
          exact w.now_le (Nat.le_of_lt_succ hm)
      | none =>
          have hkept : w.entry dateParse path n = some entry := by
            cases hstatus : (w.calls n).input.status with
            | none => rwa [entry_unknown hstatus] at h
            | some status =>
                rw [entry_absent hstatus hlisted] at h
                exact (Option.filter_eq_some_iff.mp h).1
          obtain ⟨⟨m, hm, hmlisted, hseen⟩, hlast⟩ := ih hkept
          refine ⟨⟨m, Nat.lt_succ_of_lt hm, hmlisted, hseen⟩, ?_⟩
          intro k hk hklisted
          rcases Nat.lt_succ_iff_lt_or_eq.mp hk with hlt | rfl
          · exact hlast k hlt hklisted
          · exact absurd hlisted hklisted

/-- A look that does not list a workspace keeps its entry, unless it forgets it. -/
theorem entry_kept (hlisted : (w.calls n).input.environment path = none)
    (hnot : ¬ w.Forgets path n) : w.entry dateParse path (n + 1) = w.entry dateParse path n := by
  cases hstatus : (w.calls n).input.status with
  | none => exact entry_unknown hstatus
  | some status =>
      rw [entry_absent hstatus hlisted]
      cases hentry : w.entry dateParse path n with
      | none => rfl
      | some entry =>
          refine Option.filter_eq_some_iff.mpr ⟨rfl, ?_⟩
          by_contra hold
          refine hnot ⟨by simp [hstatus], hlisted, ?_⟩
          intro m hm hmlisted
          have hseen := (entry_seenAt hentry).2 m hm hmlisted
          simp only [decide_eq_true_eq] at hold
          omega

/-- A workspace that a look forgot has no entry. -/
theorem entry_forgotten (h : w.Forgets path n) : w.entry dateParse path (n + 1) = none := by
  obtain ⟨hknown, hlisted, hold⟩ := h
  obtain ⟨status, hstatus⟩ := Option.isSome_iff_exists.mp hknown
  rw [entry_absent hstatus hlisted]
  cases hentry : w.entry dateParse path n with
  | none => rfl
  | some entry =>
      obtain ⟨m, hm, hmlisted, hseen⟩ := (entry_seenAt hentry).1
      have hlate := hold m hm hmlisted
      have hgone : ¬ (w.calls n).now - entry.seenAt < FORGET_MS := by omega
      simp [Option.filter, hgone]

end

/-! ## Stuck -/

section
variable {dateParse : String → Option Int} {run : Run} {env : OversightEnvironment}
  {status : OversightStatus} {prev : Option WorkspaceEntry} {x : OversightNotification}

/-- The time of a workspace's last activity, as a look finds it. -/
def activityAt (dateParse : String → Option Int) (run : Run) (env : OversightEnvironment)
    (status : OversightStatus) (prev : Option WorkspaceEntry) : Option Int :=
  quietSince dateParse (workspaceLook run env status)
    (overseeStart run (workspaceLook run env status) (openEntry run env prev)).1

/-- The entry that the stuck rule is given. -/
def endedEntry (dateParse : String → Option Int) (run : Run) (env : OversightEnvironment)
    (status : OversightStatus) (prev : Option WorkspaceEntry) : WorkspaceEntry :=
  endRun env (overseeFinish dateParse run (workspaceLook run env status)
    (activityAt dateParse run env status prev) (clearStuck (activityAt dateParse run env status prev)
      (overseeStart run (workspaceLook run env status) (openEntry run env prev)).1)).1

theorem mem_overseeStuck {look : WorkspaceLook} {since : Option Int} {entry : WorkspaceEntry}
    (h : x ∈ (overseeStuck dateParse run look since entry).2.notifications) :
    ∃ device quiet, x.target = deviceTarget look.env device ∧ since = some quiet ∧
      entry.stuckAt = none ∧ (overseeStuck dateParse run look since entry).1.stuckAt = some quiet := by
  unfold overseeStuck at h ⊢
  split at h
  case h_2 => simp at h
  case h_1 device quiet hdevice =>
    dsimp only at h
    by_cases hskip : entry.drove = false ∨ isBuilding look.env = true ∨
        (releasedGreen dateParse look).isSome = true ∨ entry.stuckAt.isSome = true
    · simp [hskip] at h
    · by_cases hwait : run.now < quiet + run.prefs.stuckMinutes * 60000
      · simp [hskip, hwait] at h
      · rw [if_neg hskip, if_neg hwait] at h
        simp only [if_neg hskip, if_neg hwait]
        refine ⟨device, quiet, by rw [mem_lasting h]; rfl, rfl, ?_, ?_⟩
        · simp only [not_or, Bool.not_eq_true, Option.isSome_eq_false_iff,
            Option.isNone_iff_eq_none] at hskip
          exact hskip.2.2.2
        · rw [if_pos (lasting_of_mem h)]

theorem overseeStuck_keeps {look : WorkspaceLook} {since : Option Int} {entry : WorkspaceEntry}
    {stuckAt : Int} (h : entry.stuckAt = some stuckAt) :
    (overseeStuck dateParse run look since entry).1.stuckAt = some stuckAt := by
  unfold overseeStuck
  split
  · simp [h]
  · exact h

/-- Without new activity the stuck rule is given what the look before remembered. -/
theorem endedEntry_stuckAt {before : WorkspaceEntry} {stuckAt : Int}
    (h : before.stuckAt = some stuckAt)
    (hquiet : ∀ later, activityAt dateParse run env status (some before) = some later →
      ¬ stuckAt < later) :
    (endedEntry dateParse run env status (some before)).stuckAt = some stuckAt := by
  have hstart : (overseeStart run (workspaceLook run env status)
      (openEntry run env (some before))).1.stuckAt = some stuckAt :=
    (overseeStart_fields run (workspaceLook run env status) _).2.2.1.trans h
  have hclear : (clearStuck (activityAt dateParse run env status (some before))
      (overseeStart run (workspaceLook run env status)
        (openEntry run env (some before))).1).stuckAt = some stuckAt := by
    unfold clearStuck
    rw [hstart]
    cases hlater : activityAt dateParse run env status (some before) with
    | none => simpa [isLater] using hstart
    | some later => simpa [isLater, hquiet later hlater] using hstart
  unfold endedEntry
  rw [(endRun_kept env _).2.2.1]
  exact (congrArg Progress.stuckAt (overseeFinish_fields dateParse run _ _ _)).trans hclear

/-- What a look remembers of a stuck workspace is what its stuck rule leaves. -/
theorem overseeWorkspace_stuckAt :
    (overseeWorkspace dateParse run env status prev).1.stuckAt =
      (overseeStuck dateParse run (workspaceLook run env status)
        (activityAt dateParse run env status prev)
        (endedEntry dateParse run env status prev)).1.stuckAt :=
  congrArg Progress.stuckAt (overseeWorkspace_progress run env status prev)

/-- Where a stuck or a looping notification of a look at a workspace comes from. -/
theorem mem_overseeWorkspace
    (h : x ∈ (overseeWorkspace dateParse run env status prev).2.notifications) :
    (x.category = .stuck ∧ x ∈ (overseeStuck dateParse run (workspaceLook run env status)
        (activityAt dateParse run env status prev)
        (endedEntry dateParse run env status prev)).2.notifications) ∨
      (x.category = .looping ∧ ∃ platform, x ∈ (overseeLoop run (workspaceLook run env status)
        platform (prev.bind fun prev => prev.loops.get platform)).2.notifications) ∨
      (x.category ≠ .stuck ∧ x.category ≠ .looping) := by
  have hother := emission_category run fun category => category ≠ .stuck ∧ category ≠ .looping
  have hloop := emission_category run (· = .looping)
  rcases List.mem_append.mp h with hstart | h
  · exact .inr (.inr (hother.start _ _ ⟨nofun, nofun⟩ x hstart))
  rcases List.mem_append.mp h with hprogress | h
  · rcases List.mem_append.mp hprogress with hfinish | hstuck
    · exact .inr (.inr (hother.finish _ _ ⟨nofun, nofun⟩ _ x hfinish))
    · exact .inl ⟨(emission_category run (· = .stuck)).stuck _ _ rfl _ x hstuck, hstuck⟩
  rcases List.mem_append.mp h with hloops | h
  · rcases List.mem_append.mp hloops with hios | handroid
    · exact .inr (.inl ⟨hloop.loop _ rfl _ _ x hios, .ios, hios⟩)
    · exact .inr (.inl ⟨hloop.loop _ rfl _ _ x handroid, .android, handroid⟩)
  rcases List.mem_append.mp h with hmerge | hattention
  · exact .inr (.inr (hother.merge _ _ _ ⟨nofun, nofun⟩ x hmerge))
  · exact .inr (.inr (hother.attention _ _ _ ⟨nofun, nofun⟩ x hattention))

theorem mem_overseeWorkspace_of_loop {platform : BuildPlatform}
    (h : x ∈ (overseeLoop run (workspaceLook run env status) platform
      (prev.bind fun prev => prev.loops.get platform)).2.notifications) :
    x ∈ (overseeWorkspace dateParse run env status prev).2.notifications := by
  refine List.mem_append_right _ (List.mem_append_right _ (List.mem_append_left _ ?_))
  cases platform with
  | ios => exact List.mem_append_left _ h
  | android => exact List.mem_append_right _ h

end

section
variable {dateParse : String → Option Int} {w : Watch} {path : String} {i j n : Nat}

/-- The time of a workspace's last activity, as look `n` finds it. -/
def Watch.activityAt (dateParse : String → Option Int) (w : Watch) (path : String) (n : Nat) :
    Option Int :=
  (w.calls n).input.status.bind fun status =>
    (status.environments.find? (·.path = path)).bind fun env =>
      Oversight.activityAt dateParse (w.run dateParse n) env status (w.entry dateParse path n)

theorem Watch.activityAt_listed {status : OversightStatus}
    (hstatus : (w.calls n).input.status = some status) {env : OversightEnvironment}
    (henv : env ∈ status.environments) :
    w.activityAt dateParse env.path n = Oversight.activityAt dateParse (w.run dateParse n) env status
      (w.entry dateParse env.path n) := by
  simp only [Watch.activityAt, hstatus, Option.bind_some, find_path status.distinct henv]

/-- A notification that is not the machine's comes from a workspace of the status. -/
theorem workspace_source {x : OversightNotification}
    (h : x ∈ (w.result dateParse n).notifications) (hcategory : x.category ≠ .machine) :
    ∃ status env, (w.calls n).input.status = some status ∧ env ∈ status.environments ∧
      x ∈ (overseeWorkspace dateParse (w.run dateParse n) env status
        (w.entry dateParse env.path n)).2.notifications := by
  have hmachine := emission_category (w.run dateParse n) (· = .machine)
  rcases mem_overseeRun h with hlink | hdisk | hmemory | ⟨status, hstatus, env, henv, hworkspace⟩
  · exact absurd (hmachine.link rfl _ _ x hlink) hcategory
  · exact absurd (hmachine.disk rfl _ x hdisk) hcategory
  · exact absurd (hmachine.memory rfl _ _ x hmemory) hcategory
  · exact ⟨status, env, hstatus, henv, hworkspace⟩

/-- A stuck notification comes from the stuck rule of its workspace. -/
theorem stuck_source (h : (w.result dateParse n).notifiesStuck path) :
    ∃ status env x, (w.calls n).input.status = some status ∧ env ∈ status.environments ∧
      env.path = path ∧ x ∈ (overseeStuck dateParse (w.run dateParse n)
        (workspaceLook (w.run dateParse n) env status) (w.activityAt dateParse path n)
        (endedEntry dateParse (w.run dateParse n) env status
          (w.entry dateParse path n))).2.notifications := by
  obtain ⟨x, hx, hcategory, platform, slot, htarget⟩ := h
  obtain ⟨status, env, hstatus, henv, hworkspace⟩ := workspace_source hx (by simp [hcategory])
  rcases mem_overseeWorkspace hworkspace with ⟨-, hstuck⟩ | ⟨hlooping, -⟩ | ⟨hnot, -⟩
  · obtain ⟨device, -, hdevice, -⟩ := mem_overseeStuck hstuck
    have hpath : env.path = path := by
      rw [htarget, deviceTarget, OversightTarget.device.injEq] at hdevice
      exact hdevice.1.symm
    subst hpath
    refine ⟨status, env, x, hstatus, henv, rfl, ?_⟩
    rw [Watch.activityAt_listed hstatus henv]
    exact hstuck
  · simp [hcategory] at hlooping
  · exact absurd hcategory hnot

theorem stuck_once (hij : i < j) (hi : (w.result dateParse i).notifiesStuck path)
    (hj : (w.result dateParse j).notifiesStuck path)
    (hpresent : ∀ k, i < k → k < j → (w.calls k).input.status = none ∨
      (w.calls k).input.environment path ≠ none) :
    ∃ before, w.activityAt dateParse path i = some before ∧
      ∃ k, i < k ∧ k ≤ j ∧ ∃ later, w.activityAt dateParse path k = some later ∧ before < later := by
  obtain ⟨status, env, x, hstatus, henv, rfl, hx⟩ := stuck_source hi
  obtain ⟨-, before, -, hbefore, -, hset⟩ := mem_overseeStuck hx
  refine ⟨before, hbefore, ?_⟩
  refine Episodes.exists_ended_le
    (fun n => ∃ entry, w.entry dateParse env.path n = some entry ∧ entry.stuckAt = some before)
    (fun n => (w.result dateParse n).notifiesStuck env.path) ?_ ?_ ?_ hij hi hj
  · intro _
    refine ⟨_, entry_listed hstatus henv, ?_⟩
    rw [overseeWorkspace_stuckAt, ← Watch.activityAt_listed hstatus henv]
    exact hset
  · rintro k hik hkj ⟨entry, hentry, hstuck⟩ hnot
    rcases hpresent k hik hkj with hunknown | hlisted
    · exact ⟨entry, (entry_unknown hunknown).trans hentry, hstuck⟩
    · obtain ⟨other, hother⟩ := Option.ne_none_iff_exists'.mp hlisted
      obtain ⟨status', hstatus', hmem, hpath⟩ := environment_mem hother
      rw [← hpath] at hentry hnot ⊢
      refine ⟨_, entry_listed hstatus' hmem, ?_⟩
      rw [overseeWorkspace_stuckAt, hentry]
      refine overseeStuck_keeps (endedEntry_stuckAt hstuck ?_)
      intro later hlater hlt
      refine hnot ⟨later, ?_, hlt⟩
      rw [Watch.activityAt_listed hstatus' hmem, hentry]
      exact hlater
  · rintro h ⟨entry, hentry, hstuck⟩
    obtain ⟨status', other, y, hstatus', hmem, hpath, hy⟩ := stuck_source h
    rw [← hpath] at hentry hy ⊢
    obtain ⟨-, -, -, -, hfresh, -⟩ := mem_overseeStuck hy
    by_contra hnot
    rw [hentry] at hfresh
    rw [endedEntry_stuckAt hstuck] at hfresh
    · simp at hfresh
    · intro later hlater hlt
      refine hnot ⟨later, ?_, hlt⟩
      rw [Watch.activityAt_listed hstatus' hmem, hentry]
      exact hlater

end

/-! ## Loops -/

section
variable {run : Run} {look : WorkspaceLook} {platform : BuildPlatform} {before : Option Loop}
  {x : OversightNotification}

/-- The loop rule in cases: a short streak, one already notified, and one to notify. -/
theorem overseeLoop_some {streak : FailureStreak}
    (h : failureStreak (look.env.builds.get platform) = some streak) :
    overseeLoop run look platform before =
      if streak.count < LOOP_COUNT then (some ⟨streak.cause.key, false⟩, .nothing)
      else if before = some ⟨streak.cause.key, true⟩ then (before, .nothing)
      else
        let settled := lasting run (look.notify run .looping
          (attentionBody (streak.message platform)) (.build look.env.path platform)
          ("looping-" ++ platform.name))
        (some ⟨streak.cause.key, settled.1⟩, settled.2) := by
  unfold overseeLoop
  simp only [h]
  by_cases hshort : streak.count < LOOP_COUNT
  · have hnot : ¬ LOOP_COUNT ≤ streak.count := Nat.not_le.mpr hshort
    cases before <;> simp [hshort, hnot, Option.filter]
  · have hlong : LOOP_COUNT ≤ streak.count := Nat.not_lt.mp hshort
    rcases before with _ | ⟨signature, notified⟩
    · simp [hshort]
    · by_cases hsame : signature = streak.cause.key
      · subst hsame
        cases notified <;> simp [hshort, hlong, Option.filter]
      · simp [hshort, hsame, Option.filter]

theorem mem_overseeLoop (h : x ∈ (overseeLoop run look platform before).2.notifications) :
    ∃ streak, failureStreak (look.env.builds.get platform) = some streak ∧
      x.target = .build look.env.path platform ∧ before ≠ some ⟨streak.cause.key, true⟩ ∧
      (overseeLoop run look platform before).1 = some ⟨streak.cause.key, true⟩ := by
  cases hstreak : failureStreak (look.env.builds.get platform) with
  | none => simp [overseeLoop, hstreak] at h
  | some streak =>
      rw [overseeLoop_some hstreak] at h ⊢
      by_cases hshort : streak.count < LOOP_COUNT
      · simp [hshort] at h
      · by_cases hknown : before = some ⟨streak.cause.key, true⟩
        · simp [hshort, hknown] at h
        · rw [if_neg hshort, if_neg hknown] at h ⊢
          refine ⟨streak, rfl, by rw [mem_lasting h]; rfl, hknown, ?_⟩
          simp only [lasting_of_mem h]

/-- A loop that a look remembers as notified is one that it sees. -/
theorem overseeLoop_notified {cause : String}
    (h : (overseeLoop run look platform before).1 = some ⟨cause, true⟩) :
    ∃ streak, failureStreak (look.env.builds.get platform) = some streak ∧
      streak.cause.key = cause ∧ LOOP_COUNT ≤ streak.count := by
  cases hstreak : failureStreak (look.env.builds.get platform) with
  | none => simp [overseeLoop, hstreak] at h
  | some streak =>
      rw [overseeLoop_some hstreak] at h
      by_cases hshort : streak.count < LOOP_COUNT
      · simp [hshort] at h
      · refine ⟨streak, rfl, ?_, Nat.not_lt.mp hshort⟩
        rw [if_neg hshort] at h
        split_ifs at h with hknown
        · simpa using hknown.symm.trans h
        · simp only [Option.some.injEq, Loop.mk.injEq] at h
          exact h.1

end

section
variable {dateParse : String → Option Int} {w : Watch} {path : String} {platform : BuildPlatform}
  {cause : String} {i j n : Nat}

/-- The look sees three or more failures of one cause in a row. -/
def OversightInput.Loops (input : OversightInput) (path : String) (platform : BuildPlatform)
    (cause : String) : Prop :=
  ∃ env streak, input.environment path = some env ∧
    failureStreak (env.builds.get platform) = some streak ∧ streak.cause.key = cause ∧
    LOOP_COUNT ≤ streak.count

/-- What look `n` is given of a loop. -/
def Watch.loop (dateParse : String → Option Int) (w : Watch) (path : String)
    (platform : BuildPlatform) (n : Nat) : Option Loop :=
  (w.entry dateParse path n).bind fun entry => entry.loops.get platform

/-- Look `n` sees another streak, or forgets the workspace. -/
def Watch.LoopEnds (w : Watch) (path : String) (platform : BuildPlatform) (cause : String)
    (n : Nat) : Prop :=
  ((w.calls n).input.environment path ≠ none ∧ ¬ (w.calls n).input.Loops path platform cause) ∨
    w.Forgets path n

theorem loop_listed {status : OversightStatus} (hstatus : (w.calls n).input.status = some status)
    {env : OversightEnvironment} (henv : env ∈ status.environments) :
    w.loop dateParse env.path platform (n + 1) =
      (overseeLoop (w.run dateParse n) (workspaceLook (w.run dateParse n) env status) platform
        (w.loop dateParse env.path platform n)).1 := by
  simp only [Watch.loop, entry_listed hstatus henv, Option.bind_some, overseeWorkspace_looped]
  cases platform <;> rfl

/-- A looping notification comes from the loop rule of its workspace. -/
theorem looping_source (h : (w.result dateParse n).notifiesLooping path platform) :
    ∃ status env x, (w.calls n).input.status = some status ∧ env ∈ status.environments ∧
      env.path = path ∧ x ∈ (overseeLoop (w.run dateParse n)
        (workspaceLook (w.run dateParse n) env status) platform
        (w.loop dateParse path platform n)).2.notifications := by
  obtain ⟨x, hx, hcategory, htarget⟩ := h
  obtain ⟨status, env, hstatus, henv, hworkspace⟩ := workspace_source hx (by simp [hcategory])
  rcases mem_overseeWorkspace hworkspace with ⟨hstuck, -⟩ | ⟨-, other, hloop⟩ | ⟨-, hnot⟩
  · simp [hcategory] at hstuck
  · obtain ⟨streak, -, hbuild, -⟩ := mem_overseeLoop hloop
    rw [htarget, OversightTarget.build.injEq] at hbuild
    obtain ⟨rfl, rfl⟩ := hbuild
    exact ⟨status, env, x, hstatus, henv, rfl, hloop⟩
  · exact absurd hcategory hnot

/-- What a look that lists a workspace sees of its loop. -/
theorem loops_iff {status : OversightStatus} (hstatus : (w.calls n).input.status = some status)
    {env : OversightEnvironment} (henv : env ∈ status.environments) :
    (w.calls n).input.Loops env.path platform cause ↔
      ∃ streak, failureStreak (env.builds.get platform) = some streak ∧
        streak.cause.key = cause ∧ LOOP_COUNT ≤ streak.count := by
  simp [OversightInput.Loops, environment_of_mem hstatus henv]

/-- Between two notifications of a loop the streak broke, or its workspace was forgotten. -/
theorem looping_once (hij : i < j) (hi : (w.result dateParse i).notifiesLooping path platform)
    (hj : (w.result dateParse j).notifiesLooping path platform)
    (hicause : (w.calls i).input.Loops path platform cause)
    (hjcause : (w.calls j).input.Loops path platform cause) :
    ∃ k, i < k ∧ k < j ∧ w.LoopEnds path platform cause k := by
  refine Episodes.exists_ended_lt
    (fun n => w.loop dateParse path platform n = some ⟨cause, true⟩)
    (fun n => (w.result dateParse n).notifiesLooping path platform) ?_ ?_ ?_ hij hi hj
  · intro h
    obtain ⟨status, env, x, hstatus, henv, rfl, hx⟩ := looping_source h
    obtain ⟨streak, hstreak, -, -, hset⟩ := mem_overseeLoop hx
    obtain ⟨same, hsame, rfl, -⟩ := (loops_iff hstatus henv).mp hicause
    obtain rfl : streak = same := Option.some.inj (hstreak.symm.trans hsame)
    exact (loop_listed hstatus henv).trans hset
  · intro k hik hkj hloop hnot
    simp only [Watch.LoopEnds, not_or, not_and, not_not] at hnot
    by_cases hlisted : (w.calls k).input.environment path = none
    · simp only [Watch.loop, entry_kept hlisted hnot.2]
      exact hloop
    · obtain ⟨env, henv⟩ := Option.ne_none_iff_exists'.mp hlisted
      obtain ⟨status, hstatus, hmem, rfl⟩ := environment_mem henv
      obtain ⟨streak, hstreak, rfl, hcount⟩ := (loops_iff hstatus hmem).mp (hnot.1 hlisted)
      rw [loop_listed hstatus hmem, hloop, overseeLoop_some hstreak,
        if_neg (Nat.not_lt.mpr hcount), if_pos rfl]
  · intro h hloop
    obtain ⟨status, env, x, hstatus, henv, rfl, hx⟩ := looping_source h
    obtain ⟨streak, hstreak, -, hfresh, -⟩ := mem_overseeLoop hx
    obtain ⟨same, hsame, rfl, -⟩ := (loops_iff hstatus henv).mp hjcause
    obtain rfl : streak = same := Option.some.inj (hstreak.symm.trans hsame)
    exact hfresh hloop

end

end Stim.Oversight
