import Stim.Cli.WorktreeRefresh

/-!
# An interrupted refresh is made good by the next one

A completed record tells the truth about its tree, and a pending one has the
next run install.  A root with no record is decided by what this run's
fast-forward changed, so it must already be in order when a run begins.  The
invariant says that it is, or that the run under way still owes it an install;
it is lost where the fast-forward leaves a found root without a record outdated
without having changed the root's own lockfile, and where the run ends early
while it owes such a root an install.
-/

namespace Stim.Cli.WorktreeRefresh

variable {Dir : Type} {layout : Layout Dir} {w w' : World Dir} {state other : DependencyState Dir}

/-! ## Lockfiles and directories -/

variable {files : Files Dir}

theorem lockAt_of_dependencyState {dirs : List Dir} (h : files.dependencyState dirs = some state) :
    files.lockAt state.root = some state.lock := by
  induction dirs with
  | nil => cases h
  | cons dir parents ih =>
      simp only [Files.dependencyState] at h
      split at h
      · rename_i lock hLock
        cases h
        exact hLock
      · exact ih h

/-- A directory has one lockfile at a time. -/
theorem eq_of_root_eq (hLock : files.lockAt state.root = some state.lock)
    (hOther : files.lockAt other.root = some other.lock) (hRoot : state.root = other.root) :
    state = other := by
  rw [hRoot, hOther] at hLock
  obtain ⟨lock, root⟩ := state
  obtain ⟨lock', root'⟩ := other
  cases hLock
  cases hRoot
  rfl

@[simp] theorem goto_pc (pc : Pc Dir) : (w.goto pc).pc = pc := rfl

variable [DecidableEq Dir]

/-! ## What `depsPlan` skips -/

/-- An install is skipped only for an installed tree whose last install is a
completed one of just these inputs, or which has no record and did not change. -/
theorem depsPlan_skip {i : DepsInputs} {lockfile : Lock} (hLock : i.lockfile = some lockfile)
    (h : (depsPlan i).run = false) :
    i.installed = true ∧
      ((∃ last, i.lastInstall = some last ∧ last.completed = true ∧ last.lock = lockfile ∧
          i.lockHash = some last.hash ∧ last.patches = i.patchesHash) ∨
        (i.lastInstall = none ∧ i.lockfileChanged = false ∧ i.patchesChanged = false)) := by
  simp only [depsPlan, hLock] at h
  split at h
  · cases h
  rename_i hInstalled
  refine ⟨by simpa using hInstalled, ?_⟩
  split at h
  · cases h
  split at h
  · rename_i last hLast
    refine .inl ⟨last, hLast, ?_⟩
    split_ifs at h with hDone hSame hHash hPatches
    exact ⟨by simpa using hDone, by simpa using hSame, by simpa using hHash, by simpa using hPatches⟩
  · rename_i hLast
    refine .inr ⟨hLast, ?_⟩
    split_ifs at h with hChanged hPatches
    exact ⟨by simpa using hChanged, by simpa using hPatches⟩

variable {run : Run Dir}

theorem skip_cases (h : (depsPlan (w.depsInputs run state)).run = false) :
    hasInstalledDependencies state.lock (w.tree state.root) = true ∧
      ((∃ last, w.lastInstall run state = some last ∧ last.completed = true ∧
          last.inputs = w.files.inputs state) ∨
        (w.lastInstall run state = none ∧ lockfileChanged run.before w.files state = false ∧
          patchesChanged run.before w.files state = false)) := by
  obtain ⟨hInstalled, hLast⟩ := depsPlan_skip rfl h
  refine ⟨hInstalled, ?_⟩
  rcases hLast with ⟨last, hSome, hDone, hLock, hHash, hPatches⟩ | hNone
  · refine .inl ⟨last, hSome, hDone, ?_⟩
    have hContent : w.files.lock state.root state.lock = some last.hash := hHash
    have hFor : last.patches = w.files.patchesFor state := hPatches
    simp [InstallEvidence.inputs, Files.inputs, hContent, hLock, hFor]
  · exact .inr hNone

/-! ## Which roots are found -/

/-- The second of the roots that `dependencyStates` finds. -/
def Carried (layout : Layout Dir) (w : World Dir) (state : DependencyState Dir) : Prop :=
  w.files.dependencyState [layout.root] = some state ∧
    (w.files.dependencyState (if w.files.appDir then layout.nested ++ [layout.root]
      else [layout.root])).map DependencyState.root ≠ some state.root ∧
    (hasInstalledDependencies state.lock (w.tree state.root) = true ∨
      (w.record state.root).isSome = true)

theorem mem_dependencyStates : state ∈ dependencyStates layout w ↔
    w.files.dependencyState (if w.files.appDir then layout.nested ++ [layout.root]
      else [layout.root]) = some state ∨ Carried layout w state := by
  simp only [dependencyStates, List.mem_append, Option.mem_toList,
    Option.filter_eq_some_iff, Bool.and_eq_true, Bool.or_eq_true, decide_eq_true_eq, Carried]

theorem lockAt_of_mem (h : state ∈ dependencyStates layout w) :
    w.files.lockAt state.root = some state.lock := by
  rcases mem_dependencyStates.mp h with hApp | hTop
  · exact lockAt_of_dependencyState hApp
  · exact lockAt_of_dependencyState hTop.1

variable {dir : Dir}

/-- A found root stays the only one that can join when its directory changes. -/
theorem mem_of_other_root (h : state ∈ dependencyStates layout w') (hRoot : state.root ≠ dir)
    (hFiles : w'.files = w.files) (hTree : ∀ other, other ≠ dir → w'.tree other = w.tree other)
    (hRecord : ∀ other, other ≠ dir → w'.record other = w.record other) :
    state ∈ dependencyStates layout w := by
  rcases mem_dependencyStates.mp h with hApp | ⟨hTop, hOther, hCarried⟩
  · exact mem_dependencyStates.mpr (.inl (by rwa [hFiles] at hApp))
  · rw [hFiles] at hTop hOther
    rw [hTree _ hRoot, hRecord _ hRoot] at hCarried
    exact mem_dependencyStates.mpr (.inr ⟨hTop, hOther, hCarried⟩)

/-! ## The invariant -/

/-- The tree is the complete install of the root's lockfile and patches. -/
def Fresh (w : World Dir) (state : DependencyState Dir) : Prop :=
  (w.tree state.root).isInstallOf (w.files.inputs state) = true

def InOrder (w : World Dir) (state : DependencyState Dir) : Prop :=
  w.tree state.root = .absent ∨ Fresh w state

instance (w : World Dir) (state : DependencyState Dir) : Decidable (InOrder w state) :=
  inferInstanceAs (Decidable (_ ∨ _ = true))

/-- Every found root without a record is in order. -/
def Settled (layout : Layout Dir) (w : World Dir) : Prop :=
  ∀ state ∈ dependencyStates layout w, w.record state.root = none → InOrder w state

instance (layout : Layout Dir) (w : World Dir) : Decidable (Settled layout w) :=
  inferInstanceAs (Decidable (∀ state ∈ dependencyStates layout w, _ → _))

/-- A completed record tells the truth about the tree. -/
def Truthful (w : World Dir) (dir : Dir) (record : Option InstallEvidence) : Prop :=
  ∀ last, record = some last → last.completed = true → (w.tree dir).isInstallOf last.inputs = true

/-- What a run remembers of the records is true, and it remembers those of the
roots that it marked. -/
structure RunOk (w : World Dir) (run : Run Dir) : Prop where
  priors : ∀ dir record, run.priorOf dir = some record → Truthful w dir record
  marked : ∀ state ∈ run.marked, (run.priorOf state.root).isSome = true

/-- A root that the run finds no record of is in order, or this run changed it. -/
def Decided (w : World Dir) (run : Run Dir) (state : DependencyState Dir) : Prop :=
  w.lastInstall run state = none → InOrder w state ∨
    lockfileChanged run.before w.files state = true ∨ patchesChanged run.before w.files state = true

instance (w : World Dir) (run : Run Dir) (state : DependencyState Dir) :
    Decidable (Decided w run state) :=
  inferInstanceAs (Decidable (_ → _))

def Placed (w : World Dir) (states : List (DependencyState Dir)) : Prop :=
  ∀ state ∈ states, w.files.lockAt state.root = some state.lock

/-- Every found root has its install, or the run still owes it one. -/
def Owing (layout : Layout Dir) (w : World Dir) (owed : List (DependencyState Dir)) : Prop :=
  ∀ state ∈ dependencyStates layout w, state ∈ owed ∨ Fresh w state

/-- An install of the first root is under way. -/
structure Installing (layout : Layout Dir) (w : World Dir) (state : DependencyState Dir)
    (consumed : InstallEvidence) (owed : List (DependencyState Dir)) : Prop where
  owing : Owing layout w (state :: owed)
  placed : Placed w (state :: owed)
  pending : consumed = pendingInstallEvidence w.files state
  record : w.record state.root = some consumed

def PcOk (layout : Layout Dir) (w : World Dir) : Pc Dir → Prop
  | .idle => Settled layout w
  | .returnedNull => Owing layout w []
  | .mark run _ todo =>
      RunOk w run ∧ Settled layout w ∧
        ∀ state ∈ run.marked, state ∈ todo ∨ w.record state.root ≠ none
  | .fastForward run _ =>
      RunOk w run ∧ Settled layout w ∧ ∀ state ∈ run.marked, w.record state.root ≠ none
  | .restore run roots todo =>
      RunOk w run ∧ (∀ state ∈ dependencyStates layout w, state ∈ roots) ∧ Placed w roots ∧
        (∀ state ∈ roots, Decided w run state) ∧
        ∀ state ∈ todo, w.record state.root ≠ none ∨
          some (w.record state.root) = run.priorOf state.root
  | .plan run todo owed =>
      RunOk w run ∧ Owing layout w (todo ++ owed) ∧ Placed w (todo ++ owed) ∧
        ∀ state ∈ todo, Decided w run state
  | .install owed => Owing layout w owed ∧ Placed w owed
  | .command state consumed _ owed | .running state consumed _ owed =>
      Installing layout w state consumed owed
  | .installed state consumed owed =>
      Installing layout w state consumed owed ∧
        (w.tree state.root).isInstallOf consumed.inputs = true

structure Inv (layout : Layout Dir) (w : World Dir) : Prop where
  records : ∀ dir, Truthful w dir (w.record dir)
  pc : PcOk layout w w.pc

/-! ## Records and trees of one directory -/

@[simp] theorem write_record_self (dir : Dir) (evidence : Option InstallEvidence) :
    (w.writeInstallEvidence dir evidence).record dir = evidence :=
  Function.update_self ..

theorem write_record_of_ne {dir other : Dir} (h : other ≠ dir) (evidence : Option InstallEvidence) :
    (w.writeInstallEvidence dir evidence).record other = w.record other :=
  Function.update_of_ne h ..

@[simp] theorem setTree_record (dir : Dir) (tree : Tree) :
    (w.setTree dir tree).record = w.record := rfl

@[simp] theorem setTree_tree_self (dir : Dir) (tree : Tree) :
    (w.setTree dir tree).tree dir = tree :=
  Function.update_self ..

theorem setTree_tree_of_ne {dir other : Dir} (h : other ≠ dir) (tree : Tree) :
    (w.setTree dir tree).tree other = w.tree other :=
  Function.update_of_ne h ..

variable {evidence : Option InstallEvidence}

theorem truthful_write (hRecords : ∀ other, Truthful w other (w.record other))
    (hNew : Truthful w dir evidence) (other : Dir) :
    Truthful (w.writeInstallEvidence dir evidence) other
      ((w.writeInstallEvidence dir evidence).record other) := by
  by_cases hSame : other = dir
  · subst hSame
    rw [write_record_self]
    exact hNew
  · rw [write_record_of_ne hSame]
    exact hRecords other

theorem restore_cases (w : World Dir) (run : Run Dir) (dir : Dir) (hRun : RunOk w run) :
    w.restoreMarked run dir = w ∨ ∃ record, run.priorOf dir = some record ∧
      w.restoreMarked run dir = w.writeInstallEvidence dir record := by
  unfold World.restoreMarked
  split
  · rename_i hMarked
    obtain ⟨state, hMem, hRoot⟩ := List.any_eq_true.mp hMarked
    have hSome := hRun.marked state hMem
    rw [of_decide_eq_true hRoot] at hSome
    obtain ⟨record, hPrior⟩ := Option.isSome_iff_exists.mp hSome
    exact .inr ⟨record, hPrior, by rw [hPrior]; rfl⟩
  · exact .inl rfl

/-- Restoring a record does not change what the run decides by. -/
theorem lastInstall_write {record : Option InstallEvidence}
    (hPrior : run.priorOf dir = some record) (evidence : Option InstallEvidence) :
    (w.writeInstallEvidence dir evidence).lastInstall run state = w.lastInstall run state := by
  unfold World.lastInstall
  by_cases hSame : state.root = dir
  · rw [hSame, hPrior]
    rfl
  · rw [write_record_of_ne hSame]

theorem mem_of_write (h : state ∈ dependencyStates layout (w.writeInstallEvidence dir evidence))
    (hRoot : state.root ≠ dir) : state ∈ dependencyStates layout w :=
  mem_of_other_root h hRoot rfl (fun _ _ => rfl) fun _ hNe => write_record_of_ne hNe _

/-- A record that is there, or stays as it is, makes no other root found. -/
theorem mem_of_restore (hOld : w.record dir ≠ none ∨ w.record dir = evidence)
    (h : state ∈ dependencyStates layout (w.writeInstallEvidence dir evidence)) :
    state ∈ dependencyStates layout w := by
  by_cases hRoot : state.root = dir
  swap
  · exact mem_of_write h hRoot
  rcases mem_dependencyStates.mp h with hApp | ⟨hTop, hOther, hCarried⟩
  · exact mem_dependencyStates.mpr (.inl hApp)
  · refine mem_dependencyStates.mpr (.inr ⟨hTop, hOther, ?_⟩)
    rcases hCarried with hInstalled | hRecord
    · exact .inl hInstalled
    · refine .inr ?_
      rw [hRoot] at hRecord ⊢
      rw [write_record_self] at hRecord
      rcases hOld with hSome | hSame
      · exact Option.isSome_iff_ne_none.mpr hSome
      · rw [hSame]
        exact hRecord

/-! ## Every step keeps the invariant -/

theorem RunOk.write (h : RunOk w run) (dir : Dir) (evidence : Option InstallEvidence) :
    RunOk (w.writeInstallEvidence dir evidence) run :=
  ⟨h.priors, h.marked⟩

theorem settled_write {evidence : InstallEvidence} (h : Settled layout w) :
    Settled layout (w.writeInstallEvidence dir (some evidence)) := by
  intro state hMem hNone
  have hRoot : state.root ≠ dir := by
    rintro rfl
    simp at hNone
  rw [write_record_of_ne hRoot] at hNone
  exact h state (mem_of_write hMem hRoot) hNone

omit [DecidableEq Dir] in
theorem truthful_pending (dir : Dir) (files : Files Dir) :
    Truthful w dir (some (pendingInstallEvidence files state)) := by
  rintro last hLast hDone
  cases hLast
  cases hDone

/-- A root that the run skips has its install. -/
theorem fresh_of_skip (hRecords : ∀ dir, Truthful w dir (w.record dir)) (hRun : RunOk w run)
    (hDecided : Decided w run state) (h : (depsPlan (w.depsInputs run state)).run = false) :
    Fresh w state := by
  obtain ⟨hInstalled, ⟨last, hLast, hDone, hInputs⟩ | ⟨hNone, hLock, hPatches⟩⟩ := skip_cases h
  · have hTruthful : Truthful w state.root (w.lastInstall run state) := by
      unfold World.lastInstall
      cases hPrior : run.priorOf state.root with
      | none => exact hRecords state.root
      | some record => exact hRun.priors state.root record hPrior
    have hTree := hTruthful last hLast hDone
    rwa [hInputs] at hTree
  · rcases hDecided hNone with (hAbsent | hFresh) | hChanged | hChanged
    · simp [hAbsent, hasInstalledDependencies] at hInstalled
    · exact hFresh
    · simp [hLock] at hChanged
    · simp [hPatches] at hChanged

variable {owed : List (DependencyState Dir)}

/-- A step of one root's install leaves the other found roots as they were. -/
theorem owing_of_other (hMem : other ∈ dependencyStates layout w')
    (hOwing : Owing layout w (state :: owed)) (hPlaced : Placed w (state :: owed))
    (hFiles : w'.files = w.files) (hTree : ∀ dir, dir ≠ state.root → w'.tree dir = w.tree dir)
    (hRecord : ∀ dir, dir ≠ state.root → w'.record dir = w.record dir) :
    other = state ∨ other ∈ owed ∨ Fresh w' other := by
  by_cases hRoot : other.root = state.root
  · refine .inl (eq_of_root_eq (lockAt_of_mem hMem) ?_ hRoot)
    rw [hFiles]
    exact hPlaced state (List.mem_cons_self ..)
  rcases hOwing other (mem_of_other_root hMem hRoot hFiles hTree hRecord) with hIn | hFresh
  · rcases List.mem_cons.mp hIn with rfl | hRest
    · exact absurd rfl hRoot
    · exact .inr (.inl hRest)
  · refine .inr (.inr ?_)
    unfold Fresh
    rw [hTree _ hRoot, hFiles]
    exact hFresh

theorem truthful_setTree {tree : Tree} (hRecords : ∀ dir, Truthful w dir (w.record dir))
    {evidence : InstallEvidence} (hRecord : w.record dir = some evidence)
    (hPending : evidence.completed = false) (other : Dir) :
    Truthful (w.setTree dir tree) other ((w.setTree dir tree).record other) := by
  by_cases hSame : other = dir
  · subst hSame
    rw [setTree_record, hRecord]
    rintro last hLast hDone
    cases hLast
    simp [hPending] at hDone
  · intro last hLast hDone
    rw [setTree_tree_of_ne hSame]
    exact hRecords other last hLast hDone

variable {consumed : InstallEvidence}

theorem installing_setTree {tree : Tree} (h : Installing layout w state consumed owed) :
    Installing layout (w.setTree state.root tree) state consumed owed where
  owing := by
    intro other hMem
    rcases owing_of_other hMem h.owing h.placed rfl (fun _ hNe => setTree_tree_of_ne hNe _)
      (fun _ _ => rfl) with rfl | hRest | hFresh
    · exact .inl (List.mem_cons_self ..)
    · exact .inl (List.mem_cons_of_mem _ hRest)
    · exact .inr hFresh
  placed := h.placed
  pending := h.pending
  record := h.record

/-- What a step must not do.  A fast-forward leaves no root that it finds without
a record outdated without changing the root's own lockfile or patches; an
install does not fail while such a root is found. -/
def CoveredAt (layout : Layout Dir) (w : World Dir) (ok : Bool) : Pc Dir → Prop
  | .fastForward run target => ok = true →
      ∀ state ∈ dependencyStates layout { w with files := target },
        Decided { w with files := target } run state
  | .running .. => ok = false → Settled layout w
  | _ => True

instance (layout : Layout Dir) (w : World Dir) (ok : Bool) :
    (pc : Pc Dir) → Decidable (CoveredAt layout w ok pc)
  | .fastForward run target => inferInstanceAs (Decidable (ok = true →
      ∀ state ∈ dependencyStates layout { w with files := target },
        Decided { w with files := target } run state))
  | .running .. => inferInstanceAs (Decidable (ok = false → Settled layout w))
  | .idle | .mark .. | .restore .. | .plan .. | .install .. | .command .. | .installed ..
  | .returnedNull => isTrue trivial

/-- Nor does a run die while a root is found that has no record and is outdated. -/
def Covered (layout : Layout Dir) (w : World Dir) : Action Dir → Prop
  | .act o => CoveredAt layout w o.ok w.pc
  | .die => Settled layout w
  | .refreshMainCheckout _ | .write _ => True

instance (layout : Layout Dir) (w : World Dir) :
    (a : Action Dir) → Decidable (Covered layout w a)
  | .act o => inferInstanceAs (Decidable (CoveredAt layout w o.ok w.pc))
  | .die => inferInstanceAs (Decidable (Settled layout w))
  | .refreshMainCheckout _ | .write _ => isTrue trivial

/-- Where the run is does not matter to what it knows. -/
theorem inv_goto {pc : Pc Dir} (hRecords : ∀ dir, Truthful w dir (w.record dir))
    (hPc : PcOk layout w pc) : Inv layout (w.goto pc) := by
  refine ⟨hRecords, ?_⟩
  rw [goto_pc]
  cases pc with
  | idle | returnedNull | install => exact hPc
  | mark | fastForward | restore | plan => exact ⟨⟨hPc.1.priors, hPc.1.marked⟩, hPc.2⟩
  | command | running =>
      have h : Installing layout w _ _ _ := hPc
      exact ⟨h.owing, h.placed, h.pending, h.record⟩
  | installed =>
      have h : Installing layout w _ _ _ := hPc.1
      exact ⟨⟨h.owing, h.placed, h.pending, h.record⟩, hPc.2⟩

theorem inv_mark {target : Files Dir} {todo : List (DependencyState Dir)}
    (hRecords : ∀ dir, Truthful w dir (w.record dir))
    (hPc : PcOk layout w (.mark run target (state :: todo))) :
    Inv layout ((w.writeInstallEvidence state.root
      (some (pendingInstallEvidence w.files state))).goto (.mark run target todo)) := by
  obtain ⟨hRun, hSettled, hMarked⟩ := hPc
  refine inv_goto (truthful_write hRecords (truthful_pending _ _))
    ⟨hRun.write .., settled_write hSettled, ?_⟩
  intro other hMem
  by_cases hRoot : other.root = state.root
  · refine .inr ?_
    rw [hRoot, write_record_self]
    simp
  · rw [write_record_of_ne hRoot]
    rcases hMarked other hMem with hIn | hSome
    · rcases List.mem_cons.mp hIn with rfl | hRest
      · exact absurd rfl hRoot
      · exact .inl hRest
    · exact .inr hSome

theorem inv_fastForward {target : Files Dir} (hRecords : ∀ dir, Truthful w dir (w.record dir))
    (hPc : PcOk layout w (.fastForward run target))
    (hDecided : ∀ state ∈ dependencyStates layout { w with files := target },
      Decided { w with files := target } run state) :
    Inv layout (({ w with files := target } : World Dir).goto
      (.restore run (dependencyStates layout { w with files := target }) run.marked)) := by
  obtain ⟨hRun, -, hMarked⟩ := hPc
  exact ⟨hRecords, ⟨hRun.priors, hRun.marked⟩, fun state hMem => hMem,
    fun state hMem => lockAt_of_mem hMem, hDecided, fun state hMem => .inl (hMarked state hMem)⟩

/-- Restoring a vanished root's record leaves the found roots as they were. -/
theorem inv_restore {roots todo : List (DependencyState Dir)}
    (hRecords : ∀ dir, Truthful w dir (w.record dir))
    (hPc : PcOk layout w (.restore run roots (state :: todo))) :
    Inv layout ((w.restoreMarked run state.root).goto (.restore run roots todo)) := by
  obtain ⟨hRun, hFound, hPlaced, hDecided, hTodo⟩ := hPc
  have hRest : ∀ other ∈ todo, w.record other.root ≠ none ∨
      some (w.record other.root) = run.priorOf other.root :=
    fun other hMem => hTodo other (List.mem_cons_of_mem _ hMem)
  rcases restore_cases w run state.root hRun with hSame | ⟨record, hPrior, hWrite⟩
  · rw [hSame]
    exact inv_goto hRecords ⟨hRun, hFound, hPlaced, hDecided, hRest⟩
  rw [hWrite]
  have hOld : w.record state.root ≠ none ∨ w.record state.root = record := by
    rcases hTodo state (List.mem_cons_self ..) with hSome | hSame
    · exact .inl hSome
    · rw [hPrior] at hSame
      exact .inr (Option.some_inj.mp hSame)
  refine inv_goto (truthful_write hRecords (hRun.priors _ record hPrior)) ⟨hRun.write ..,
    fun other hMem => hFound other (mem_of_restore hOld hMem), hPlaced, ?_, ?_⟩
  · intro other hMem hNone
    rw [lastInstall_write hPrior] at hNone
    exact hDecided other hMem hNone
  · intro other hMem
    by_cases hRoot : other.root = state.root
    · refine .inr ?_
      rw [hRoot, write_record_self, hPrior]
    · rw [write_record_of_ne hRoot]
      exact hRest other hMem

theorem inv_owe {todo owed : List (DependencyState Dir)}
    (hRecords : ∀ dir, Truthful w dir (w.record dir))
    (hPc : PcOk layout w (.plan run (state :: todo) owed)) :
    Inv layout (w.goto (.plan run todo (owed ++ [state]))) := by
  obtain ⟨hRun, hOwing, hPlaced, hDecided⟩ := hPc
  have hSplit : ∀ other, other ∈ state :: todo ++ owed ↔ other ∈ todo ++ (owed ++ [state]) := by
    intro other
    simp only [List.cons_append, List.mem_cons, List.mem_append, List.not_mem_nil, or_false]
    tauto
  refine inv_goto hRecords ⟨hRun, ?_, ?_, ?_⟩
  · intro other hMem
    exact (hOwing other hMem).imp_left (hSplit other).mp
  · exact fun other hMem => hPlaced other ((hSplit other).mpr hMem)
  · exact fun other hMem => hDecided other (List.mem_cons_of_mem _ hMem)

theorem inv_skip {todo owed : List (DependencyState Dir)}
    (hRecords : ∀ dir, Truthful w dir (w.record dir))
    (hPc : PcOk layout w (.plan run (state :: todo) owed))
    (hSkip : (depsPlan (w.depsInputs run state)).run = false) :
    Inv layout ((w.restoreMarked run state.root).goto (.plan run todo owed)) := by
  obtain ⟨hRun, hOwing, hPlaced, hDecided⟩ := hPc
  have hFresh : Fresh w state :=
    fresh_of_skip hRecords hRun (hDecided state (List.mem_cons_self ..)) hSkip
  have hRest : ∀ other ∈ todo, Decided w run other :=
    fun other hMem => hDecided other (List.mem_cons_of_mem _ hMem)
  have hPlaced' : Placed w (todo ++ owed) := fun other hMem => hPlaced other (.tail _ hMem)
  rcases restore_cases w run state.root hRun with hSame | ⟨record, hPrior, hWrite⟩
  · rw [hSame]
    refine inv_goto hRecords ⟨hRun, ?_, hPlaced', hRest⟩
    intro other hMem
    rcases hOwing other hMem with hIn | hDone
    · rcases List.mem_cons.mp hIn with rfl | hIn
      · exact .inr hFresh
      · exact .inl hIn
    · exact .inr hDone
  rw [hWrite]
  refine inv_goto (truthful_write hRecords (hRun.priors _ record hPrior))
    ⟨hRun.write .., ?_, hPlaced', ?_⟩
  · intro other hMem
    rcases owing_of_other hMem hOwing hPlaced rfl (fun _ _ => rfl)
      (fun _ hNe => write_record_of_ne hNe record) with rfl | hIn | hDone
    · exact .inr hFresh
    · exact .inl hIn
    · exact .inr hDone
  · intro other hMem hNone
    rw [lastInstall_write hPrior] at hNone
    exact hRest other hMem hNone

theorem inv_install {postinstall : Bool} (hRecords : ∀ dir, Truthful w dir (w.record dir))
    (hPc : PcOk layout w (.install (state :: owed))) :
    Inv layout ((w.writeInstallEvidence state.root
      (some (pendingInstallEvidence w.files state))).goto
        (.command state (pendingInstallEvidence w.files state) postinstall owed)) := by
  obtain ⟨hOwing, hPlaced⟩ := hPc
  refine inv_goto (truthful_write hRecords (truthful_pending _ _))
    (show Installing .. from ⟨?_, hPlaced, rfl, write_record_self ..⟩)
  intro other hMem
  rcases owing_of_other hMem hOwing hPlaced rfl (fun _ _ => rfl)
    (fun _ hNe => write_record_of_ne hNe _) with rfl | hIn | hDone
  · exact .inl (List.mem_cons_self ..)
  · exact .inl (List.mem_cons_of_mem _ hIn)
  · exact .inr hDone

theorem inv_setTree {tree : Tree} {pc : Pc Dir} (hRecords : ∀ dir, Truthful w dir (w.record dir))
    (h : Installing layout w state consumed owed)
    (hPc : PcOk layout (w.setTree state.root tree) pc) :
    Inv layout ((w.setTree state.root tree).goto pc) := by
  have hPending : consumed.completed = false := by
    rw [h.pending]
    rfl
  exact inv_goto (truthful_setTree hRecords h.record hPending) hPc

theorem inv_installed {treeProblems : Option String}
    (hRecords : ∀ dir, Truthful w dir (w.record dir))
    (hPc : PcOk layout w (.installed state consumed owed)) :
    Inv layout ((w.writeInstallEvidence state.root (some { consumed with
      completed := true, treeProblems })).goto (.install owed)) := by
  obtain ⟨hInstalling, hTree⟩ := hPc
  have hInputs : consumed.inputs = w.files.inputs state := by
    rw [hInstalling.pending]
    rfl
  refine inv_goto (truthful_write hRecords ?_)
    ⟨?_, fun other hMem => hInstalling.placed other (.tail _ hMem)⟩
  · rintro last hLast -
    cases hLast
    exact hTree
  · intro other hMem
    rcases owing_of_other hMem hInstalling.owing hInstalling.placed rfl (fun _ _ => rfl)
      (fun _ hNe => write_record_of_ne hNe _) with rfl | hIn | hDone
    · refine .inr ?_
      rw [hInputs] at hTree
      exact hTree
    · exact .inl hIn
    · exact .inr hDone

theorem inv_act (o : Outcome) (hInv : Inv layout w) (hCovered : Covered layout w (.act o)) :
    Inv layout (w.act layout o) := by
  obtain ⟨hRecords, hPc⟩ := hInv
  cases hAt : w.pc with
  | idle | returnedNull =>
      simp only [World.act, hAt]
      exact ⟨hRecords, hPc⟩
  | mark run target todo =>
      rw [hAt] at hPc
      simp only [World.act, hAt]
      cases todo with
      | nil =>
          refine inv_goto hRecords ⟨hPc.1, hPc.2.1, ?_⟩
          exact fun state hMem => (hPc.2.2 state hMem).resolve_left (by simp)
      | cons state todo => exact inv_mark hRecords hPc
  | fastForward run target =>
      rw [hAt] at hPc
      simp only [World.act, hAt]
      simp only [Covered, hAt, CoveredAt] at hCovered
      split_ifs with hOk
      · exact inv_fastForward hRecords hPc (hCovered hOk)
      · exact inv_goto hRecords hPc.2.1
  | restore run roots todo =>
      rw [hAt] at hPc
      simp only [World.act, hAt]
      cases todo with
      | nil =>
          obtain ⟨hRun, hFound, hPlaced, hDecided, -⟩ := hPc
          refine inv_goto hRecords ⟨hRun, ?_, by simpa using hPlaced, hDecided⟩
          exact fun state hMem => .inl (by simpa using hFound state hMem)
      | cons state todo =>
          dsimp only
          split_ifs
          · obtain ⟨hRun, hFound, hPlaced, hDecided, hTodo⟩ := hPc
            exact inv_goto hRecords ⟨hRun, hFound, hPlaced, hDecided,
              fun other hMem => hTodo other (.tail _ hMem)⟩
          · exact inv_restore hRecords hPc
  | plan run todo owed =>
      rw [hAt] at hPc
      simp only [World.act, hAt]
      cases todo with
      | nil => exact inv_goto hRecords ⟨hPc.2.1, hPc.2.2.1⟩
      | cons state todo =>
          dsimp only
          split_ifs with hRun
          · exact inv_owe hRecords hPc
          · exact inv_skip hRecords hPc (by simpa using hRun)
  | install owed =>
      rw [hAt] at hPc
      simp only [World.act, hAt]
      cases owed with
      | nil =>
          dsimp only
          split_ifs
          · exact inv_goto hRecords hPc.1
          · exact inv_goto hRecords fun state hMem _ =>
              .inr ((hPc.1 state hMem).resolve_left (by simp))
      | cons state owed => exact inv_install hRecords hPc
  | command state consumed postinstall owed =>
      rw [hAt] at hPc
      simp only [World.act, hAt]
      exact inv_setTree hRecords hPc (installing_setTree hPc)
  | running state consumed postinstall owed =>
      rw [hAt] at hPc
      simp only [Covered, hAt, CoveredAt] at hCovered
      simp only [World.act, hAt]
      cases postinstall with
      | true =>
          dsimp only
          split_ifs with hOk
          · exact inv_goto hRecords hPc
          · exact inv_goto hRecords (hCovered (by simpa using hOk))
      | false =>
          dsimp only
          split_ifs with hOk
          · refine inv_setTree hRecords hPc ⟨installing_setTree hPc, ?_⟩
            simp [Tree.isInstallOf]
          · exact inv_goto hRecords (hCovered (by simpa using hOk))
  | installed state consumed owed =>
      rw [hAt] at hPc
      simp only [World.act, hAt]
      exact inv_installed hRecords hPc

theorem settled_of_rest (hRest : w.pc.atRest = true) (hPc : PcOk layout w w.pc) :
    Settled layout w := by
  cases hAt : w.pc with
  | idle =>
      rw [hAt] at hPc
      exact hPc
  | returnedNull =>
      rw [hAt] at hPc
      exact fun state hMem _ => .inr ((hPc state hMem).resolve_left (by simp))
  | mark | fastForward | restore | plan | install | command | running | installed =>
      rw [hAt] at hRest
      cases hRest

theorem priorOf_begin {before : Files Dir} {marked : List (DependencyState Dir)}
    {record : Option InstallEvidence}
    (h : Run.priorOf ⟨before, w.priorInstalls layout, marked⟩ dir = some record) :
    record = w.record dir := by
  obtain ⟨entry, hFind, hRecord⟩ := Option.map_eq_some_iff.mp h
  obtain ⟨state, -, rfl⟩ := List.mem_map.mp (List.mem_of_find?_eq_some hFind)
  have hRoot : state.root = dir := by simpa using List.find?_some hFind
  rw [← hRecord, hRoot]

theorem lastInstall_begin (before : Files Dir) (marked : List (DependencyState Dir)) :
    w.lastInstall ⟨before, w.priorInstalls layout, marked⟩ state = w.record state.root := by
  unfold World.lastInstall
  cases hPrior : Run.priorOf ⟨before, w.priorInstalls layout, marked⟩ state.root with
  | none => rfl
  | some record => exact priorOf_begin hPrior

theorem runOk_begin (before : Files Dir) {marked : List (DependencyState Dir)}
    (hRecords : ∀ dir, Truthful w dir (w.record dir))
    (hMarked : ∀ state ∈ marked, state ∈ dependencyStates layout w) :
    RunOk w ⟨before, w.priorInstalls layout, marked⟩ where
  priors := by
    intro dir record hPrior
    rw [priorOf_begin hPrior]
    exact hRecords dir
  marked := by
    intro state hMem
    rw [Run.priorOf, Option.isSome_map, List.find?_isSome]
    exact ⟨_, List.mem_map_of_mem (hMarked state hMem), by simp⟩

theorem inv_start (upstream : Option (Files Dir)) (hInv : Inv layout w)
    (hRest : w.pc.atRest = true) : Inv layout (w.start layout upstream) := by
  have hSettled := settled_of_rest hRest hInv.pc
  cases upstream with
  | none =>
      refine inv_goto hInv.records ⟨runOk_begin w.files hInv.records (by simp),
        fun state hMem => hMem, fun state hMem => lockAt_of_mem hMem, ?_, by simp⟩
      intro state hMem hNone
      rw [lastInstall_begin] at hNone
      exact .inl (hSettled state hMem hNone)
  | some target =>
      exact inv_goto hInv.records ⟨runOk_begin w.files hInv.records (fun _ h => h), hSettled,
        fun state hMem => .inl hMem⟩

theorem inv_step {a : Action Dir} (hInv : Inv layout w) (hCovered : Covered layout w a)
    (hStep : step layout w a = some w') : Inv layout w' := by
  cases a with
  | refreshMainCheckout upstream =>
      obtain ⟨hRest, hSome⟩ := Option.ite_none_right_eq_some.mp hStep
      cases hSome
      exact inv_start upstream hInv hRest
  | act o =>
      obtain ⟨-, hSome⟩ := Option.ite_none_left_eq_some.mp hStep
      cases hSome
      exact inv_act o hInv hCovered
  | write markers =>
      simp only [step] at hStep
      split at hStep
      · rename_i state consumed postinstall owed hAt
        cases hStep
        have hPc := hInv.pc
        rw [hAt] at hPc
        have hSame : w.setTree state.root (.unfinished markers) =
            (w.setTree state.root (.unfinished markers)).goto
              (.running state consumed postinstall owed) := by
          rw [← hAt]
          rfl
        rw [hSame]
        exact inv_setTree hInv.records hPc (installing_setTree hPc)
      · cases hStep
  | die =>
      obtain ⟨-, hSome⟩ := Option.ite_none_left_eq_some.mp hStep
      cases hSome
      exact inv_goto hInv.records hCovered

/-! ## Runs -/

/-- A checkout that no refresh has touched. -/
def World.initial (files : Files Dir) (tree : Dir → Tree) : World Dir where
  files := files
  tree := tree
  record := fun _ => none
  pc := .idle

/-- Every dependency root's tree is absent or the complete install of its lockfile.
What other directories hold is left open. -/
def Installed (layout : Layout Dir) (w : World Dir) : Prop :=
  ∀ state ∈ dependencyStates layout w, InOrder w state

/-- Whenever a run has returned `null`, the tree of every dependency root is the
complete install of that root's lockfile and patches. -/
def MadeGood (layout : Layout Dir) (w : World Dir) : Prop :=
  w.pc = .returnedNull → ∀ state ∈ dependencyStates layout w, Fresh w state

theorem inv_initial {tree : Dir → Tree} (h : Installed layout (World.initial files tree)) :
    Inv layout (World.initial files tree) := by
  refine ⟨by rintro dir last ⟨⟩, ?_⟩
  intro state hMem _
  exact h state hMem

/-- In every sequence of runs, interrupted anywhere, in which no fast-forward
and no early end leaves an outdated root without a record behind, what a run
returns `null` for is installed. -/
theorem madeGood_of_run {files : Files Dir} {tree : Dir → Tree} {actions : List (Action Dir)}
    (hInstalled : Installed layout (World.initial files tree))
    (hRun : Machine.run (step layout) (World.initial files tree) actions = some w)
    (hCovered : Machine.Meets (step layout) (Covered layout) (World.initial files tree) actions) :
    MadeGood layout w := by
  have hInv : Inv layout w := Machine.invariant_run_meets (P := Inv layout)
    (fun _ _ _ h hMet hStep => inv_step h hMet hStep) (inv_initial hInstalled) hRun hCovered
  intro hAt state hMem
  have hPc := hInv.pc
  rw [hAt] at hPc
  exact (hPc state hMem).resolve_left (by simp)

/-- An npm project at the repository root, with its lockfile's content. -/
def npmProject (lock : Option String) : Files Unit where
  lock := fun _ kind => if kind = .npm then lock else none
  patches := fun _ => ""
  appDir := true

def oneRoot : Layout Unit := ⟨[], ()⟩

/-- The first install, made by hand. -/
def firstInstall : Unit → Tree :=
  fun _ => .complete ⟨true, false⟩ ⟨.npm, "v1", ""⟩

theorem installed_firstInstall :
    Installed oneRoot (World.initial (npmProject (some "v1")) firstInstall) := by
  unfold Installed
  decide +kernel

def succeed : Action Unit := .act ⟨true, false, ⟨true, false⟩⟩

/-- A refresh moves the lockfile and dies in its install; the next one runs. -/
def interrupted : List (Action Unit) :=
  .refreshMainCheckout (some (npmProject (some "v2"))) :: List.replicate 9 succeed ++
    [.write ⟨false, false⟩, .die, .refreshMainCheckout none] ++ List.replicate 8 succeed

/-- One refresh removes the lockfile and the next brings another one, but dies
after its fast-forward; a third one finds nothing to do. -/
def reappearing : List (Action Unit) :=
  .refreshMainCheckout (some (npmProject none)) :: List.replicate 7 succeed ++
    .refreshMainCheckout (some (npmProject (some "v2"))) :: List.replicate 2 succeed ++
    [.die, .refreshMainCheckout none] ++ List.replicate 4 succeed

theorem madeGood_of_run_interrupted :
    ∃ w, Machine.run (step oneRoot) (World.initial (npmProject (some "v1")) firstInstall)
      interrupted = some w ∧ w.pc = .returnedNull ∧ MadeGood oneRoot w := by
  obtain ⟨w, hRun, hNull⟩ : ∃ w, Machine.run (step oneRoot)
      (World.initial (npmProject (some "v1")) firstInstall) interrupted = some w ∧
        w.pc = .returnedNull := ⟨_, rfl, rfl⟩
  have hCovered : Machine.Meets (step oneRoot) (Covered oneRoot)
      (World.initial (npmProject (some "v1")) firstInstall) interrupted := by decide +kernel
  exact ⟨w, hRun, hNull, madeGood_of_run installed_firstInstall hRun hCovered⟩

/-- The third refresh returns `null` with the first install under the new
lockfile. -/
theorem not_madeGood_reappearing :
    ∃ w, Machine.run (step oneRoot) (World.initial (npmProject (some "v1")) firstInstall)
      reappearing = some w ∧ ¬ MadeGood oneRoot w := by
  refine ⟨_, rfl, ?_⟩
  intro hGood
  have hFresh := hGood rfl ⟨.npm, ()⟩ (by decide +kernel)
  revert hFresh
  unfold Fresh
  decide +kernel

end Stim.Cli.WorktreeRefresh
