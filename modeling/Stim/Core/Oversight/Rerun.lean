import Stim.Core.Oversight.Settled

/-!
# Looking again at the whole machine

From the rules one by one to `oversee`: when every further look at an unchanged world is silent.
-/

namespace Stim.Oversight

/-! ## What every rule's emissions are made of -/

/-- A property of emissions that holds of whatever rules of the categories `C` emit. -/
structure Emission (run : Run) (C : Category → Prop) (P : Emitted → Prop) : Prop where
  nothing : P .nothing
  append : ∀ a b, P a → P b → P (a.append b)
  wake : ∀ due, P (wake run due)
  event : ∀ notification, C notification.category → P (event run notification)
  lasting : ∀ notification, C notification.category → P (lasting run notification).2

namespace Emission
variable {run : Run} {C : Category → Prop} {P : Emitted → Prop} (h : Emission run C P)
  {dateParse : String → Option Int}
include h

theorem settle (held : Held) (due : Int) (notification : OversightNotification)
    (hC : C notification.category) : P (Oversight.settle run held due notification).2 := by
  unfold Oversight.settle
  split_ifs
  · exact h.nothing
  · exact h.wake due
  · exact h.lasting notification hC

theorem link (hC : C .machine) (previous : Option HeldLink) (awakeSince : Int) :
    P (overseeLink run previous awakeSince).2 := by
  unfold overseeLink
  split
  · exact h.nothing
  · exact h.settle _ _ _ hC

theorem disk (hC : C .machine) (previous : Option Held) : P (overseeDisk run previous).2 := by
  unfold overseeDisk
  split
  · exact h.nothing
  · split
    · exact h.nothing
    · split_ifs
      · exact h.settle _ _ _ hC
      · exact h.nothing

theorem memory (hC : C .machine) (previous : Option Held) (known : Bool) :
    P (overseeMemory run previous known).2 := by
  unfold overseeMemory
  split
  · exact h.nothing
  · rename_i pressure _
    by_cases hcritical : pressure = "critical"
    · rw [if_pos hcritical]
      exact h.settle _ _ _ hC
    · rw [if_neg hcritical]
      exact h.nothing

variable (look : WorkspaceLook) (prev : Option WorkspaceEntry) (entry : WorkspaceEntry)

theorem start (hC : C .started) : P (overseeStart run look entry).2 := by
  unfold overseeStart
  refine h.append _ _ ?_ ?_
  · unfold overseeWarming
    split_ifs
    · exact h.event _ hC
    · exact h.nothing
  · unfold overseeDriving
    split
    · exact h.nothing
    · dsimp only
      split_ifs
      · exact h.nothing
      · exact h.event _ hC

theorem finish (hC : C .finished) (since : Option Int) :
    P (overseeFinish dateParse run look since entry).2 := by
  unfold overseeFinish
  split
  · split_ifs
    · exact h.nothing
    · exact h.wake _
    · exact h.nothing
    · exact h.event _ hC
  · exact h.nothing

theorem stuck (hC : C .stuck) (since : Option Int) :
    P (overseeStuck dateParse run look since entry).2 := by
  unfold overseeStuck
  split
  · split_ifs
    · exact h.nothing
    · exact h.wake _
    · exact h.lasting _ hC
  · exact h.nothing

theorem loop (hC : C .looping) (platform : BuildPlatform) (before : Option Loop) :
    P (overseeLoop run look platform before).2 := by
  unfold overseeLoop
  split
  · exact h.nothing
  · dsimp only
    split_ifs
    · exact h.nothing
    · exact h.lasting _ hC

theorem merge (hC : C .finished) : P (overseeMerge run look prev entry).2 := by
  unfold overseeMerge
  refine h.append _ _ ?_ ?_
  · unfold overseePullRequest
    split
    · exact h.nothing
    · exact h.nothing
    · dsimp only
      split
      · exact h.nothing
      · split_ifs
        · exact h.append _ _ (h.event _ hC) (h.event _ hC)
        · exact h.append _ _ h.nothing (h.event _ hC)
        · exact h.event _ hC
        · exact h.nothing
  · unfold overseeBranch
    split
    · exact h.nothing
    · exact h.nothing
    · split_ifs
      · exact h.nothing
      · exact h.nothing
    · split_ifs
      · exact h.event _ hC
      · exact h.nothing

theorem items (hC : C .attention) (known : List String)
    (pending : List (NeedsAttentionItem × OversightTarget)) (sofar : Raised)
    (hsofar : P sofar.emitted) : P (pending.foldl (overseeItem run look known) sofar).emitted := by
  induction pending generalizing sofar with
  | nil => exact hsofar
  | cons first rest ih =>
      refine ih _ ?_
      unfold overseeItem
      split_ifs
      · exact hsofar
      · exact h.append _ _ hsofar (h.lasting _ hC)

theorem attention (hC : C .attention) : P (overseeAttention dateParse run look prev entry).2 := by
  unfold overseeAttention
  refine h.append _ _ ?_ (h.items look hC _ _ _ h.nothing)
  split
  · exact h.wake _
  · exact h.nothing

theorem workspace (hC : ∀ category, category ≠ .machine → C category) (env : OversightEnvironment)
    (status : OversightStatus) : P (overseeWorkspace dateParse run env status prev).2 :=
  h.append _ _ (h.start _ _ (hC _ nofun)) (h.append _ _
    (h.append _ _ (h.finish _ _ (hC _ nofun) _) (h.stuck _ _ (hC _ nofun) _))
    (h.append _ _ (h.append _ _ (h.loop _ (hC _ nofun) _ _) (h.loop _ (hC _ nofun) _ _))
      (h.append _ _ (h.merge _ _ _ (hC _ nofun)) (h.attention _ _ _ (hC _ nofun)))))

theorem workspaces (hC : ∀ category, category ≠ .machine → C category)
    (previous : Option OversightState) :
    ∀ each ∈ overseeWorkspaces dateParse run previous, P each.2.2 := by
  intro each heach
  unfold overseeWorkspaces at heach
  split at heach
  · simp at heach
  · obtain ⟨env, -, rfl⟩ := List.mem_map.mp heach
    exact h.workspace _ hC _ _

theorem whole (hC : ∀ category, C category) (previous : Option OversightState)
    (awakeSince : Int) : P (overseeRun dateParse run previous awakeSince).2 := by
  refine h.append _ _ (h.link (hC _) _ _)
    (h.append _ _ (h.disk (hC _) _) (h.append _ _ (h.memory (hC _) _ _) ?_))
  have hlooked : ∀ each ∈ overseeWorkspaces dateParse run previous, P each.2.2 :=
    h.workspaces (fun category _ => hC category) previous
  revert hlooked
  generalize overseeWorkspaces dateParse run previous = looked
  intro hlooked
  induction looked with
  | nil => exact h.nothing
  | cons first rest ih =>
      exact h.append _ _ (hlooked first List.mem_cons_self)
        (ih fun each heach => hlooked each (List.mem_cons_of_mem _ heach))

end Emission

/-- In quiet hours nothing is notified. -/
theorem emission_quiet (run : Run) (hquiet : run.prefs.quiet = true) :
    Emission run (fun _ => True) fun emitted => emitted.notifications = [] where
  nothing := rfl
  append := fun a b ha hb => by rw [append_notifications, ha, hb]; rfl
  wake := fun _ => rfl
  event := fun notification _ => by simp [event, hquiet]
  lasting := fun notification _ => by
    unfold lasting
    split_ifs
    · rfl
    · rfl

/-- A look asks to be woken after it only. -/
theorem emission_before (run : Run) :
    Emission run (fun _ => True) fun emitted => emitted.Before run.now where
  nothing := before_nothing _
  append := fun _ _ ha hb => before_append.mpr ⟨ha, hb⟩
  wake := wake_before_now run
  event := fun notification _ => event_before run notification _
  lasting := fun notification _ => lasting_before run notification _

/-! ## A second look -/

variable {dateParse : String → Option Int}

theorem foldr_before {looked : List (String × WorkspaceEntry × Emitted)} {t : Int} :
    (looked.foldr (fun each rest => each.2.2.append rest) Emitted.nothing).Before t ↔
      ∀ each ∈ looked, each.2.2.Before t := by
  induction looked with
  | nil => simp
  | cons first rest ih => rw [List.foldr_cons, before_append, ih, List.forall_mem_cons]

theorem foldr_notifications {looked : List (String × WorkspaceEntry × Emitted)} :
    (looked.foldr (fun each rest => each.2.2.append rest) Emitted.nothing).notifications =
      looked.flatMap fun each => each.2.2.notifications := by
  induction looked with
  | nil => rfl
  | cons first rest ih => rw [List.foldr_cons, append_notifications, ih, List.flatMap_cons]

variable {env : OversightEnvironment}

/-- Paths are distinct, so an environment's entry is found under its path. -/
theorem lookup_path {β : Type} (f : OversightEnvironment → β)
    {environments : List OversightEnvironment}
    (hdistinct : (environments.map OversightEnvironment.path).Nodup) (henv : env ∈ environments) :
    (environments.map fun env => (env.path, f env)).lookup env.path = some (f env) := by
  induction environments with
  | nil => simp at henv
  | cons first rest ih =>
      rw [List.map_cons, List.nodup_cons] at hdistinct
      rw [List.map_cons, List.lookup_cons]
      rcases List.mem_cons.mp henv with rfl | hrest
      · simp
      · have hne : env.path ≠ first.path := by
          intro heq
          exact hdistinct.1 (heq ▸ List.mem_map_of_mem hrest)
        rw [beq_eq_false_iff_ne.mpr hne]
        exact ih hdistinct.2 hrest

variable {previous : Option OversightState}

/-- The entry that a look leaves for an environment of its status. -/
theorem entryBefore_overseeRun {run : Run} {awakeSince : Int} {status : OversightStatus}
    (hstatus : run.input.status = some status) (henv : env ∈ status.environments) :
    entryBefore (some (overseeRun dateParse run previous awakeSince).1) env.path =
      some (overseeWorkspace dateParse run env status (entryBefore previous env.path)).1 := by
  have hlookup := lookup_path
    (fun env => (overseeWorkspace dateParse run env status (entryBefore previous env.path)).1)
    status.distinct henv
  simp only [entryBefore, overseeRun, hstatus, Option.isNone_some, Bool.false_eq_true, if_false,
    Option.bind_some, keptWorkspaces, overseeWorkspaces, List.map_map, Function.comp_def] at hlookup ⊢
  rw [hlookup]
  rfl

/-- The devices of a workspace that an agent drives. -/
def drivenDevices (env : OversightEnvironment) (ownLeases : List String) : List SlotDevice :=
  (devicesOf env).filter fun device => agentDriven device ownLeases

/-- No workspace of the status is idle while an agent drives one of its devices. -/
def OversightInput.Undriven (input : OversightInput) : Prop :=
  ∀ status, input.status = some status → ∀ env ∈ status.environments,
    isIdle env = true → drivenDevices env input.ownLeases = []

/-- A second look before the first one's wake time notifies nothing. -/
theorem overseeRun_settled (run : Run) {awakeSince t : Int} (hquiet : run.prefs.quiet = false)
    (hnow : run.now ≤ t) (hundriven : .started ∈ run.prefs.categories → run.input.Undriven)
    (hbefore : (overseeRun dateParse run previous awakeSince).2.Before t) :
    (overseeRun dateParse (run.again t) (some (overseeRun dateParse run previous awakeSince).1)
      awakeSince).2.notifications = [] := by
  obtain ⟨hlink, hbefore⟩ := before_append.mp hbefore
  obtain ⟨hdisk, hbefore⟩ := before_append.mp hbefore
  obtain ⟨hmemory, hworkspaces⟩ := before_append.mp hbefore
  rw [foldr_before] at hworkspaces
  generalize hstate : (overseeRun dateParse run previous awakeSince).1 = state
  show ((overseeLink _ _ _).2.append ((overseeDisk _ _).2.append ((overseeMemory _ _ _).2.append
    (List.foldr _ _ _)))).notifications = []
  simp only [append_notifications, List.append_eq_nil_iff, foldr_notifications,
    List.flatMap_eq_nil_iff]
  refine ⟨?_, ?_, ?_, ?_⟩
  · rw [← hstate]
    exact overseeLink_settled hquiet hlink
  · rw [← hstate]
    exact overseeDisk_settled hquiet hdisk
  · rw [← hstate]
    exact overseeMemory_settled hquiet hmemory
  · intro each heach
    unfold overseeWorkspaces at heach hworkspaces
    cases hstatus : run.input.status with
    | none => simp [Run.again, hstatus] at heach
    | some status =>
        simp only [Run.again, hstatus, List.mem_map] at heach hworkspaces
        obtain ⟨env, henv, rfl⟩ := heach
        rw [← hstate, entryBefore_overseeRun hstatus henv]
        refine overseeWorkspace_settled hquiet hnow ?_ (hworkspaces _ ⟨env, henv, rfl⟩)
        intro hon hdriven
        by_contra hidle
        exact hdriven (hundriven hon status hstatus env henv (by simpa using hidle))

/-! ## Any number of further looks -/

/-- Every further look at `input`, each before the wake time of the one before it, is silent. -/
def SilentAgain (dateParse : String → Option Int) (input : OversightInput)
    (prefs : OversightPrefs) (awakeSince : Int) : OversightResult → Int → List Int → Prop
  | _, _, [] => True
  | result, now, t :: times =>
      now ≤ t → (∀ w, result.wakeAt = some w → t < w) →
        (oversee dateParse (some result.state) input prefs t awakeSince).notifications = [] ∧
        SilentAgain dateParse input prefs awakeSince
          (oversee dateParse (some result.state) input prefs t awakeSince) t times

theorem oversee_quiet {input : OversightInput} {prefs : OversightPrefs} {now awakeSince : Int}
    (hquiet : prefs.quiet = true) :
    (oversee dateParse previous input prefs now awakeSince).notifications = [] :=
  (emission_quiet ⟨input, prefs, now, previous.isNone⟩ hquiet).whole (fun _ => trivial) previous awakeSince

/-- A drive that an idle workspace forgot starts again. -/
theorem overseeWorkspace_repeats {run : Run} {status : OversightStatus}
    {prev : Option WorkspaceEntry} {t : Int} (hquiet : run.prefs.quiet = false)
    (hon : .started ∈ run.prefs.categories) (hidle : isIdle env = true)
    (hdriven : drivenDevices env run.input.ownLeases ≠ []) :
    (overseeWorkspace dateParse (run.again t) env status
      (some (overseeWorkspace dateParse run env status prev).1)).2.notifications ≠ [] := by
  have hforgot : (overseeWorkspace dateParse run env status prev).1.driveNotified = false := by
    refine (congrArg Progress.driveNotified
      (overseeWorkspace_progress run env status prev)).trans ?_
    refine (congrArg Progress.driveNotified (overseeStuck_fields dateParse _ _ _ _)).trans ?_
    show (endRun env _).driveNotified = false
    simp [endRun, hidle]
  generalize (overseeWorkspace dateParse run env status prev).1 = entry at hforgot ⊢
  have hstart : (overseeDriving (run.again t) (workspaceLook run env status)
      (overseeWarming (run.again t) (workspaceLook run env status)
        (openEntry (run.again t) env (some entry))).1).2.notifications ≠ [] := by
    have hopened : (overseeWarming (run.again t) (workspaceLook run env status)
        (openEntry (run.again t) env (some entry))).1.driveNotified = false := by
      unfold overseeWarming
      split_ifs <;> exact hforgot
    generalize (overseeWarming (run.again t) (workspaceLook run env status)
      (openEntry (run.again t) env (some entry))).1 = opened at hopened ⊢
    unfold overseeDriving
    cases hdevices : (workspaceLook run env status).driven with
    | nil => exact absurd hdevices hdriven
    | cons first rest => simp [hopened, event, Run.again, WorkspaceLook.notify, hon, hquiet]
  intro hsilent
  have hstartSilent := (List.append_eq_nil_iff.mp hsilent).1
  exact hstart (List.append_eq_nil_iff.mp hstartSilent).2

theorem overseeRun_repeats (run : Run) {awakeSince t : Int} (hquiet : run.prefs.quiet = false)
    (hon : .started ∈ run.prefs.categories) (hdriven : ¬ run.input.Undriven) :
    (overseeRun dateParse (run.again t) (some (overseeRun dateParse run previous awakeSince).1)
      awakeSince).2.notifications ≠ [] := by
  simp only [OversightInput.Undriven, not_forall] at hdriven
  obtain ⟨status, hstatus, env, henv, hidle, hdriven⟩ := hdriven
  intro hsilent
  have hworkspaces := (List.append_eq_nil_iff.mp (List.append_eq_nil_iff.mp
    (List.append_eq_nil_iff.mp hsilent).2).2).2
  rw [foldr_notifications, List.flatMap_eq_nil_iff] at hworkspaces
  have hentry : entryBefore (some (overseeRun dateParse run previous awakeSince).1) env.path = _ :=
    entryBefore_overseeRun hstatus henv
  have hrepeats : (overseeWorkspace dateParse (run.again t) env status
      (some (overseeWorkspace dateParse run env status
        (entryBefore previous env.path)).1)).2.notifications ≠ [] :=
    overseeWorkspace_repeats hquiet hon hidle hdriven
  refine hrepeats ?_
  rw [← hentry]
  refine hworkspaces (env.path, _) ?_
  unfold overseeWorkspaces
  simp only [Run.again, hstatus]
  exact List.mem_map.mpr ⟨env, henv, rfl⟩

/-- Looking again at an unchanged world is silent for as long as no look is due, exactly when
in quiet hours, with starts off, or when no workspace is idle while an agent drives it. -/
theorem silentAgain_iff (dateParse : String → Option Int) (previous : Option OversightState)
    (input : OversightInput) (prefs : OversightPrefs) (now awakeSince : Int) :
    (∀ times, SilentAgain dateParse input prefs awakeSince
      (oversee dateParse previous input prefs now awakeSince) now times) ↔
      prefs.quiet = true ∨ .started ∉ prefs.categories ∨ input.Undriven := by
  constructor
  · intro hsilent
    by_contra hnot
    simp only [not_or, not_not, Bool.not_eq_true] at hnot
    have hbefore : (overseeRun dateParse ⟨input, prefs, now, previous.isNone⟩ previous
        awakeSince).2.Before now :=
      (emission_before _).whole (fun _ => trivial) previous awakeSince
    have hfirst := (hsilent [now] (Int.le_refl _) hbefore).1
    exact overseeRun_repeats ⟨input, prefs, now, previous.isNone⟩ hnot.1 hnot.2.1
      hnot.2.2 hfirst
  · intro hholds times
    induction times generalizing previous now with
    | nil => trivial
    | cons t times ih =>
        intro hnow hwake
        refine ⟨?_, ih _ _⟩
        cases hquiet : prefs.quiet with
        | true => exact oversee_quiet hquiet
        | false =>
            refine overseeRun_settled ⟨input, prefs, now, previous.isNone⟩ hquiet hnow ?_
              hwake
            intro hon
            rcases hholds with hq | hoff | hundriven
            · simp [hquiet] at hq
            · exact absurd hon hoff
            · exact hundriven

/-- A workspace with nothing of its own running whose leased phone an agent drives. -/
def drivenPhone : OversightEnvironment where
  path := "/work/app"
  live := false
  phase := some "idle"
  ios := none
  android := some ⟨none, some "detected", true, some ⟨"driven", some ⟨"agent-device", none⟩, none, none⟩⟩
  slots := []
  worktree := none
  build := none
  issues := []
  physicalDevices := []
  remoteDevices := []
  lastBuilds := ⟨none, none⟩
  builds := ⟨[], []⟩
  errorsSinceMarker := none
  web := none

def drivenPhoneInput : OversightInput where
  machine := "mac"
  status := some ⟨[drivenPhone], [], by decide⟩
  volumes := none
  memoryPressure := none
  link := none
  pullRequests := fun _ => none
  ownLeases := []

/-- The first look records the world; the second one, at the same time, notifies the drive, and
so does the third. -/
theorem not_silentAgain_drivenPhone :
    ¬ SilentAgain (fun _ => none) drivenPhoneInput ⟨[.started], 15, false⟩ 0
        (oversee (fun _ => none) none drivenPhoneInput ⟨[.started], 15, false⟩ 0 0) 0 [0] ∧
      ((oversee (fun _ => none)
        (some (oversee (fun _ => none) (some (oversee (fun _ => none) none drivenPhoneInput
          ⟨[.started], 15, false⟩ 0 0).state) drivenPhoneInput ⟨[.started], 15, false⟩ 0 0).state)
        drivenPhoneInput ⟨[.started], 15, false⟩ 0 0).notifications.map
          OversightNotification.body) =
        ["agent-device started driving Android device on mac"] := by
  refine ⟨?_, ?_⟩
  · intro hsilent
    have hfirst := (hsilent (by decide) (by decide)).1
    revert hfirst
    decide +kernel
  · decide +kernel

end Stim.Oversight
