import Stim.Core.Oversight.Rerun
import Stim.Lib.Episodes

/-!
# Episodes of lasting problems

Along a run of looks, each given the state of the one before, a lasting problem notifies once
per episode: what it remembers of a notification outlives every look that does not end the
episode.  A problem that began in quiet hours is remembered as not notified, and the first look
after them at which it is due notifies it.
-/

namespace Stim.Oversight

structure Call where
  input : OversightInput
  prefs : OversightPrefs
  now : Int
  awakeSince : Int

/-- A run of looks whose prefs have fixed categories, at times that do not go back. -/
structure Watch where
  calls : Nat → Call
  categories : List Category
  fixed : ∀ n, (calls n).prefs.categories = categories
  machine : .machine ∈ categories
  stuck : .stuck ∈ categories
  looping : .looping ∈ categories
  rising : ∀ n, (calls n).now ≤ (calls (n + 1)).now

section
variable (dateParse : String → Option Int) (w : Watch)

/-- The state that look `n` is given. -/
def Watch.state : Nat → Option OversightState
  | 0 => none
  | n + 1 => some (oversee dateParse (Watch.state n) (w.calls n).input (w.calls n).prefs
      (w.calls n).now (w.calls n).awakeSince).state

def Watch.result (n : Nat) : OversightResult :=
  oversee dateParse (w.state dateParse n) (w.calls n).input (w.calls n).prefs (w.calls n).now
    (w.calls n).awakeSince

def Watch.run (n : Nat) : Run :=
  ⟨(w.calls n).input, (w.calls n).prefs, (w.calls n).now, (w.state dateParse n).isNone⟩

end

def OversightResult.notifiesMachine (result : OversightResult) (id : String) : Prop :=
  ∃ x ∈ result.notifications, x.category = .machine ∧ x.id = "machine:" ++ id

def OversightResult.notifiesStuck (result : OversightResult) (path : String) : Prop :=
  ∃ x ∈ result.notifications, x.category = .stuck ∧
    ∃ platform slot, x.target = .device path platform slot

def OversightResult.notifiesLooping (result : OversightResult) (path : String)
    (platform : BuildPlatform) : Prop :=
  ∃ x ∈ result.notifications, x.category = .looping ∧ x.target = .build path platform

/-! ## What one look emits -/

section
variable {dateParse : String → Option Int} {run : Run} {previous : Option OversightState}
  {awakeSince : Int} {x : OversightNotification}

variable {notification : OversightNotification}

theorem mem_lasting (h : x ∈ (lasting run notification).2.notifications) : x = notification := by
  unfold lasting at h
  split_ifs at h
  · simp at h
  · simp at h
  · simpa using h

theorem lasting_of_mem (h : x ∈ (lasting run notification).2.notifications) :
    (lasting run notification).1 = true := by
  unfold lasting at h ⊢
  split_ifs at h ⊢
  · rfl
  · simp at h
  · rfl

/-- Rules of the categories `C` emit no other. -/
theorem emission_category (run : Run) (C : Category → Prop) :
    Emission run C fun emitted => ∀ x ∈ emitted.notifications, C x.category where
  nothing := by simp
  append := fun a b ha hb x hx => (List.mem_append.mp hx).elim (ha x) (hb x)
  wake := fun _ => by simp
  event := fun notification hC x hx => by
    unfold event at hx
    split_ifs at hx
    · simp only [List.mem_singleton] at hx
      exact hx ▸ hC
    · simp at hx
  lasting := fun notification hC x hx => mem_lasting hx ▸ hC

theorem mem_settle {held : Held} {due : Int}
    (h : x ∈ (settle run held due notification).2.notifications) :
    x = notification ∧ held.notified = false ∧ run.prefs.quiet = false ∧
      (settle run held due notification).1 = { held with notified := true } := by
  unfold settle at *
  split_ifs at h with hnotified hwait
  · simp at h
  · simp at h
  · refine ⟨mem_lasting h, by simpa using hnotified, ?_, ?_⟩
    · cases hquiet : run.prefs.quiet with
      | false => rfl
      | true => exact absurd h (by simp [(emission_quiet run hquiet).lasting _ trivial])
    · rw [if_neg hnotified, if_neg hwait]
      simp only [lasting_of_mem h]

/-- Where a notification of a look comes from. -/
theorem mem_overseeRun (h : x ∈ (overseeRun dateParse run previous awakeSince).2.notifications) :
    x ∈ (overseeLink run (previous.bind OversightState.link) awakeSince).2.notifications ∨
      x ∈ (overseeDisk run (previous.bind OversightState.disk)).2.notifications ∨
      x ∈ (overseeMemory run (previous.bind OversightState.memory)
        (previous.any OversightState.memoryKnown)).2.notifications ∨
      ∃ status, run.input.status = some status ∧ ∃ env ∈ status.environments,
        x ∈ (overseeWorkspace dateParse run env status
          (entryBefore previous env.path)).2.notifications := by
  rcases List.mem_append.mp h with hlink | h
  · exact .inl hlink
  rcases List.mem_append.mp h with hdisk | h
  · exact .inr (.inl hdisk)
  rcases List.mem_append.mp h with hmemory | h
  · exact .inr (.inr (.inl hmemory))
  refine .inr (.inr (.inr ?_))
  rw [foldr_notifications, List.mem_flatMap] at h
  obtain ⟨each, heach, hx⟩ := h
  unfold overseeWorkspaces at heach
  cases hstatus : run.input.status with
  | none => simp [hstatus] at heach
  | some status =>
      simp only [hstatus, List.mem_map] at heach
      obtain ⟨env, henv, rfl⟩ := heach
      exact ⟨status, rfl, env, henv, hx⟩

/-- Conversely, what a rule of a look emits is a notification of the look. -/
theorem mem_overseeRun_of_machine
    (h : x ∈ (overseeDisk run (previous.bind OversightState.disk)).2.notifications ∨
      x ∈ (overseeMemory run (previous.bind OversightState.memory)
        (previous.any OversightState.memoryKnown)).2.notifications) :
    x ∈ (overseeRun dateParse run previous awakeSince).2.notifications := by
  refine List.mem_append_right _ ?_
  rcases h with h | h
  · exact List.mem_append_left _ h
  · exact List.mem_append_right _ (List.mem_append_left _ h)

theorem mem_overseeRun_of_workspace {status : OversightStatus}
    (hstatus : run.input.status = some status) {env : OversightEnvironment}
    (henv : env ∈ status.environments)
    (h : x ∈ (overseeWorkspace dateParse run env status
      (entryBefore previous env.path)).2.notifications) :
    x ∈ (overseeRun dateParse run previous awakeSince).2.notifications := by
  refine List.mem_append_right _ (List.mem_append_right _ (List.mem_append_right _ ?_))
  rw [foldr_notifications, List.mem_flatMap]
  refine ⟨(env.path, _), ?_, h⟩
  unfold overseeWorkspaces
  simp only [hstatus]
  exact List.mem_map.mpr ⟨env, henv, rfl⟩

/-! ## The machine's rules -/

theorem mem_overseeLink {held : Option HeldLink}
    (h : x ∈ (overseeLink run held awakeSince).2.notifications) :
    ∃ kind body, run.input.link = some kind ∧ kind ≠ .isOpen ∧
      x = machineNotification run "link" body ∧
      (∀ before, held = some ⟨kind, before⟩ → before.notified = false) ∧
      ∃ after, (overseeLink run held awakeSince).1 = some ⟨kind, after⟩ ∧
        after.notified = true := by
  unfold overseeLink at *
  cases hlink : run.input.link.filter (· ≠ .isOpen) with
  | none =>
      rw [hlink] at h
      simp at h
  | some kind =>
      simp only [hlink] at h ⊢
      obtain ⟨hx, hnotified, -, hafter⟩ := mem_settle h
      obtain ⟨hkind, hopen⟩ := Option.filter_eq_some_iff.mp hlink
      refine ⟨kind, _, hkind, by simpa using hopen, hx, ?_, _, rfl, ?_⟩
      · rintro before rfl
        simpa using hnotified
      · rw [hafter]

variable {before : Held}

theorem overseeLink_keeps {kind : Link} (hkind : kind ≠ .isOpen)
    (hlink : run.input.link = some kind) (hnotified : before.notified = true) :
    (overseeLink run (some ⟨kind, before⟩) awakeSince).1 = some ⟨kind, before⟩ := by
  simp [overseeLink, hlink, Option.filter, hkind, settle, hnotified]

theorem mem_overseeDisk {held : Option Held} (h : x ∈ (overseeDisk run held).2.notifications) :
    (∃ body, x = machineNotification run "disk" body) ∧
      (∀ before, held = some before → before.notified = false) ∧
      ∃ after, (overseeDisk run held).1 = some after ∧ after.notified = true := by
  unfold overseeDisk at *
  cases hvolumes : run.input.volumes with
  | none => simp [hvolumes] at h
  | some volumes =>
      simp only [hvolumes] at h ⊢
      cases hlowest : volumes.min? with
      | none => simp [hlowest] at h
      | some lowest =>
          simp only [hlowest] at h ⊢
          by_cases hlow : lowest < diskFloor held
          · simp only [hlow, if_true] at h ⊢
            obtain ⟨hx, hnotified, -, hafter⟩ := mem_settle h
            refine ⟨⟨_, hx⟩, ?_, _, rfl, ?_⟩
            · rintro before rfl
              exact hnotified
            · rw [hafter]
          · simp [hlow] at h

/-- The disk is known and no longer low. -/
def OversightInput.DiskRecovered (input : OversightInput) : Prop :=
  ∃ volumes, input.volumes = some volumes ∧
    ∀ lowest, volumes.min? = some lowest → DISK_RECOVERED_BYTES ≤ lowest

theorem overseeDisk_keeps (hnot : ¬ run.input.DiskRecovered) (hnotified : before.notified = true) :
    (overseeDisk run (some before)).1 = some before := by
  unfold overseeDisk
  cases hvolumes : run.input.volumes with
  | none => rfl
  | some volumes =>
      cases hlowest : volumes.min? with
      | none => exact absurd ⟨volumes, hvolumes, by simp [hlowest]⟩ hnot
      | some lowest =>
          have hlow : lowest < diskFloor (some before) := by
            by_contra hge
            refine hnot ⟨volumes, hvolumes, ?_⟩
            intro other hother
            rw [hlowest, Option.some.injEq] at hother
            exact hother ▸ Nat.le_of_not_lt hge
          simp [hlowest, hlow, settle, hnotified]

theorem mem_overseeMemory {held : Option Held} {known : Bool}
    (h : x ∈ (overseeMemory run held known).2.notifications) :
    (∃ body, x = machineNotification run "memory" body) ∧
      (∀ before, held = some before → before.notified = false) ∧
      ∃ after, (overseeMemory run held known).1 = some after ∧ after.notified = true := by
  unfold overseeMemory at *
  cases hpressure : run.input.memoryPressure with
  | none => simp [hpressure] at h
  | some pressure =>
      simp only [hpressure] at h ⊢
      by_cases hcritical : pressure = "critical"
      · simp only [hcritical, if_true] at h ⊢
        obtain ⟨hx, hnotified, -, hafter⟩ := mem_settle h
        refine ⟨⟨_, hx⟩, ?_, _, rfl, ?_⟩
        · rintro before rfl
          unfold heldMemory at hnotified
          dsimp only at hnotified
          split_ifs at hnotified
          exact hnotified
        · rw [hafter]
      · simp [hcritical] at h

def OversightInput.MemoryRecovered (input : OversightInput) : Prop :=
  ∃ pressure, input.memoryPressure = some pressure ∧ pressure ≠ "critical"

theorem overseeMemory_keeps {known : Bool} (hnot : ¬ run.input.MemoryRecovered)
    (hnotified : before.notified = true) :
    ∃ after, (overseeMemory run (some before) known).1 = some after ∧ after.notified = true := by
  unfold overseeMemory
  cases hpressure : run.input.memoryPressure with
  | none => exact ⟨before, rfl, hnotified⟩
  | some pressure =>
      by_cases hcritical : pressure = "critical"
      · have hheld : (heldMemory run (some before) known).notified = true := by
          unfold heldMemory
          dsimp only
          split_ifs
          · exact hnotified
          · rfl
        simp [hcritical, settle, hheld]
      · exact absurd ⟨pressure, hpressure, hcritical⟩ hnot

end

/-! ## Once per episode: the machine -/

section
variable {dateParse : String → Option Int} {w : Watch} {i j n : Nat}

/-- A machine notification comes from one of the machine's three rules. -/
theorem machine_source {id : String} (h : (w.result dateParse n).notifiesMachine id) :
    ∃ x, x.id = "machine:" ++ id ∧
      (x ∈ (overseeLink (w.run dateParse n) ((w.state dateParse n).bind OversightState.link)
          (w.calls n).awakeSince).2.notifications ∨
        x ∈ (overseeDisk (w.run dateParse n)
          ((w.state dateParse n).bind OversightState.disk)).2.notifications ∨
        x ∈ (overseeMemory (w.run dateParse n) ((w.state dateParse n).bind OversightState.memory)
          ((w.state dateParse n).any OversightState.memoryKnown)).2.notifications) := by
  obtain ⟨x, hx, hcategory, hid⟩ := h
  refine ⟨x, hid, ?_⟩
  rcases mem_overseeRun hx with hlink | hdisk | hmemory | ⟨status, -, env, -, hworkspace⟩
  · exact .inl hlink
  · exact .inr (.inl hdisk)
  · exact .inr (.inr hmemory)
  · exact absurd hcategory ((emission_category _ (· ≠ .machine)).workspace _ (fun _ hne => hne) _ _ x
      hworkspace)

theorem disk_source (h : (w.result dateParse n).notifiesMachine "disk") :
    ∃ x, x ∈ (overseeDisk (w.run dateParse n)
      ((w.state dateParse n).bind OversightState.disk)).2.notifications := by
  obtain ⟨x, hid, hlink | hdisk | hmemory⟩ := machine_source h
  · obtain ⟨kind, body, -, -, rfl, -⟩ := mem_overseeLink hlink
    exact absurd hid (by simp [machineNotification])
  · exact ⟨x, hdisk⟩
  · obtain ⟨⟨body, rfl⟩, -⟩ := mem_overseeMemory hmemory
    exact absurd hid (by simp [machineNotification])

theorem memory_source (h : (w.result dateParse n).notifiesMachine "memory") :
    ∃ x, x ∈ (overseeMemory (w.run dateParse n)
      ((w.state dateParse n).bind OversightState.memory)
      ((w.state dateParse n).any OversightState.memoryKnown)).2.notifications := by
  obtain ⟨x, hid, hlink | hdisk | hmemory⟩ := machine_source h
  · obtain ⟨kind, body, -, -, rfl, -⟩ := mem_overseeLink hlink
    exact absurd hid (by simp [machineNotification])
  · obtain ⟨⟨body, rfl⟩, -⟩ := mem_overseeDisk hdisk
    exact absurd hid (by simp [machineNotification])
  · exact ⟨x, hmemory⟩

theorem link_source (h : (w.result dateParse n).notifiesMachine "link") :
    ∃ x, x ∈ (overseeLink (w.run dateParse n) ((w.state dateParse n).bind OversightState.link)
      (w.calls n).awakeSince).2.notifications := by
  obtain ⟨x, hid, hlink | hdisk | hmemory⟩ := machine_source h
  · exact ⟨x, hlink⟩
  · obtain ⟨⟨body, rfl⟩, -⟩ := mem_overseeDisk hdisk
    exact absurd hid (by simp [machineNotification])
  · obtain ⟨⟨body, rfl⟩, -⟩ := mem_overseeMemory hmemory
    exact absurd hid (by simp [machineNotification])

theorem disk_once (hij : i < j) (hi : (w.result dateParse i).notifiesMachine "disk")
    (hj : (w.result dateParse j).notifiesMachine "disk") :
    ∃ k, i < k ∧ k < j ∧ (w.calls k).input.DiskRecovered := by
  refine Episodes.exists_ended_lt
    (fun n => ∃ held, (w.state dateParse n).bind OversightState.disk = some held ∧
      held.notified = true)
    (fun n => (w.result dateParse n).notifiesMachine "disk") ?_ ?_ ?_ hij hi hj
  · intro h
    obtain ⟨x, hx⟩ := disk_source h
    exact (mem_overseeDisk hx).2.2
  · rintro k - - ⟨held, hheld, hnotified⟩ hnot
    have hkeeps : (overseeDisk (w.run dateParse k) (some held)).1 = some held :=
      overseeDisk_keeps hnot hnotified
    rw [← hheld] at hkeeps
    exact ⟨held, hkeeps.trans hheld, hnotified⟩
  · rintro h ⟨held, hheld, hnotified⟩
    obtain ⟨x, hx⟩ := disk_source h
    have hfresh := (mem_overseeDisk hx).2.1 held hheld
    simp [hnotified] at hfresh

theorem memory_once (hij : i < j) (hi : (w.result dateParse i).notifiesMachine "memory")
    (hj : (w.result dateParse j).notifiesMachine "memory") :
    ∃ k, i < k ∧ k < j ∧ (w.calls k).input.MemoryRecovered := by
  refine Episodes.exists_ended_lt
    (fun n => ∃ held, (w.state dateParse n).bind OversightState.memory = some held ∧
      held.notified = true)
    (fun n => (w.result dateParse n).notifiesMachine "memory") ?_ ?_ ?_ hij hi hj
  · intro h
    obtain ⟨x, hx⟩ := memory_source h
    exact (mem_overseeMemory hx).2.2
  · rintro k - - ⟨held, hheld, hnotified⟩ hnot
    obtain ⟨after, hafter, hstill⟩ : ∃ after, (overseeMemory (w.run dateParse k) (some held)
        ((w.state dateParse k).any OversightState.memoryKnown)).1 = some after ∧
        after.notified = true :=
      overseeMemory_keeps hnot hnotified
    rw [← hheld] at hafter
    exact ⟨after, hafter, hstill⟩
  · rintro h ⟨held, hheld, hnotified⟩
    obtain ⟨x, hx⟩ := memory_source h
    have hfresh := (mem_overseeMemory hx).2.1 held hheld
    simp [hnotified] at hfresh

theorem link_once (hij : i < j) (hi : (w.result dateParse i).notifiesMachine "link")
    (hj : (w.result dateParse j).notifiesMachine "link") :
    ∃ k, i < k ∧ k ≤ j ∧ (w.calls k).input.link ≠ (w.calls i).input.link := by
  obtain ⟨x, hx⟩ := link_source hi
  obtain ⟨kind, -, hkind, hopen, -, -, after, hafter, hset⟩ := mem_overseeLink hx
  refine Episodes.exists_ended_le
    (fun n => ∃ held, (w.state dateParse n).bind OversightState.link = some ⟨kind, held⟩ ∧
      held.notified = true)
    (fun n => (w.result dateParse n).notifiesMachine "link") ?_ ?_ ?_ hij hi hj
  · exact fun _ => ⟨after, hafter, hset⟩
  · rintro k - - ⟨held, hheld, hnotified⟩ hsame
    rw [not_not] at hsame
    have hkeeps : (overseeLink (w.run dateParse k) (some ⟨kind, held⟩)
        (w.calls k).awakeSince).1 = some ⟨kind, held⟩ :=
      overseeLink_keeps hopen (hsame.trans hkind) hnotified
    rw [← hheld] at hkeeps
    exact ⟨held, hkeeps.trans hheld, hnotified⟩
  · rintro h ⟨held, hheld, hnotified⟩ hsame
    obtain ⟨y, hy⟩ := link_source h
    obtain ⟨other, -, hother, -, -, hfresh, -⟩ := mem_overseeLink hy
    have heq : other = kind := Option.some.inj (hother.symm.trans (hsame.trans hkind))
    have := hfresh held (heq ▸ hheld)
    simp [hnotified] at this

end

end Stim.Oversight
