import Stim.Lib.Machine

/-!
# Refreshing the source checkout

The dependency half of `refreshMainCheckout` of
`packages/stim-cli/src/workspace/worktree-refresh.ts`, with `depsPlan`,
`runDependencyInstall` and the install records, and `dependencyStates` over
`dependency-state.ts`.  A run fast-forwards the checkout and installs what it
finds owed; it may die between any two of its steps, and the next run begins
with what is on disk.

A lockfile stands for its SHA-256, and a directory's patches for `hashPatches`,
with `""` for none.  Git answers truthfully about a clean checkout, and `npm ls`
finds no problems.  The Pods step after the installs decides only whether the
run returns `null`.
-/

namespace Stim.Cli.WorktreeRefresh

/-- The lockfiles of `DEPENDENCY_STATES`. -/
inductive Lock where
  | pnpm | yarn | bun | bunBinary | npm
  deriving DecidableEq, Repr

/-- In the order in which a directory is searched for them. -/
def DEPENDENCY_STATES : List Lock := [.pnpm, .yarn, .bun, .bunBinary, .npm]

def Lock.file : Lock → String
  | .pnpm => "pnpm-lock.yaml"
  | .yarn => "yarn.lock"
  | .bun => "bun.lock"
  | .bunBinary => "bun.lockb"
  | .npm => "package-lock.json"

/-- What of an installed tree `hasInstalledDependencies` looks for. -/
structure Markers where
  nodeModules : Bool
  pnp : Bool
  deriving DecidableEq, Repr

/-- What an install consumes.  Patches are applied by a fresh install of an npm
project only. -/
structure Inputs where
  lock : Lock
  content : String
  patches : String
  deriving DecidableEq, Repr

inductive Tree where
  | absent
  | unfinished (markers : Markers)
  | complete (markers : Markers) (inputs : Inputs)
  deriving DecidableEq, Repr

def Tree.isInstallOf (inputs : Inputs) : Tree → Bool
  | .complete _ installed => decide (installed = inputs)
  | .absent | .unfinished _ => false

/-- `hasInstalledDependencies`: yarn's markers include those of Plug'n'Play. -/
def hasInstalledDependencies (lock : Lock) : Tree → Bool
  | .absent => false
  | .unfinished markers | .complete markers _ =>
      markers.nodeModules || (decide (lock = .yarn) && markers.pnp)

structure InstallEvidence where
  lock : Lock
  hash : String
  patches : String
  completed : Bool
  treeProblems : Option String
  deriving DecidableEq, Repr

def InstallEvidence.inputs (evidence : InstallEvidence) : Inputs :=
  ⟨evidence.lock, evidence.hash, evidence.patches⟩

structure DepsInputs where
  lockfile : Option Lock
  lockfileChanged : Bool
  patchesChanged : Bool
  installed : Bool
  treeProblems : Option String
  lastInstall : Option InstallEvidence
  lockHash : Option String
  patchesHash : String

structure StepPlan where
  run : Bool
  reason : String
  deriving DecidableEq, Repr

/-- Whether `npm ls` reported problems that the last completed install did not
leave: an empty string is none. -/
def DepsInputs.treeIsStale (i : DepsInputs) : Bool :=
  match i.treeProblems with
  | none => false
  | some problems =>
      decide (problems ≠ "") && decide (i.lastInstall.bind InstallEvidence.treeProblems ≠ some problems)

def depsPlan (i : DepsInputs) : StepPlan :=
  match i.lockfile with
  | none => ⟨false, "no lockfile in this repository"⟩
  | some lockfile =>
      if !i.installed then ⟨true, "no installed dependencies"⟩
      else if i.treeIsStale then
        ⟨true, "the installed tree does not match " ++ lockfile.file⟩
      else
        match i.lastInstall with
        | some last =>
            if !last.completed then
              ⟨true, "the last install of " ++ last.lock.file ++ " did not finish"⟩
            else if last.lock ≠ lockfile then
              ⟨true, "the last completed install was of " ++ last.lock.file⟩
            else if i.lockHash ≠ some last.hash then
              ⟨true, lockfile.file ++ " does not match the last completed install"⟩
            else if last.patches ≠ i.patchesHash then
              ⟨true, "patches/ does not match the last completed install"⟩
            else ⟨false, lockfile.file ++ " matches the last completed install"⟩
        | none =>
            if i.lockfileChanged then ⟨true, lockfile.file ++ " changed"⟩
            else if i.patchesChanged then ⟨true, "patches/ changed"⟩
            else ⟨false, lockfile.file ++ " unchanged"⟩

section

variable (Dir : Type)

/-- The directories that a run looks in: the app's own first and then those
above it, and the repository root, which comes last. -/
structure Layout where
  nested : List Dir
  root : Dir

/-- The tracked files of a commit. -/
structure Files where
  lock : Dir → Lock → Option String
  patches : Dir → String
  /-- Whether the app's directory exists. -/
  appDir : Bool

structure DependencyState where
  lock : Lock
  root : Dir
  deriving DecidableEq, Repr

/-- What a run remembers: the commit it began at, the records it found, and the
roots that it marked before its fast-forward. -/
structure Run where
  before : Files Dir
  priorInstalls : List (Dir × Option InstallEvidence)
  marked : List (DependencyState Dir)

/-- Where a run is. -/
inductive Pc where
  | idle
  | mark (run : Run Dir) (target : Files Dir) (todo : List (DependencyState Dir))
  | fastForward (run : Run Dir) (target : Files Dir)
  | restore (run : Run Dir) (roots todo : List (DependencyState Dir))
  | plan (run : Run Dir) (todo owed : List (DependencyState Dir))
  | install (owed : List (DependencyState Dir))
  | command (dependencies : DependencyState Dir) (consumed : InstallEvidence)
      (postinstall : Bool) (owed : List (DependencyState Dir))
  | running (dependencies : DependencyState Dir) (consumed : InstallEvidence)
      (postinstall : Bool) (owed : List (DependencyState Dir))
  | installed (dependencies : DependencyState Dir) (consumed : InstallEvidence)
      (owed : List (DependencyState Dir))
  | returnedNull

structure World where
  files : Files Dir
  tree : Dir → Tree
  record : Dir → Option InstallEvidence
  pc : Pc Dir

end

section Steps

variable {Dir : Type} [DecidableEq Dir]

/-- The lockfile that `dependencyState` finds in one directory. -/
def Files.lockAt (files : Files Dir) (dir : Dir) : Option Lock :=
  DEPENDENCY_STATES.find? fun lock => (files.lock dir lock).isSome

/-- The first directory of the list with a lockfile. -/
def Files.dependencyState (files : Files Dir) : List Dir → Option (DependencyState Dir)
  | [] => none
  | dir :: parents =>
      match files.lockAt dir with
      | some lock => some ⟨lock, dir⟩
      | none => files.dependencyState parents

/-- The app's dependency root, and the repository's where that is another one
with installed dependencies or a record. -/
def dependencyStates (layout : Layout Dir) (w : World Dir) : List (DependencyState Dir) :=
  let app := w.files.dependencyState
    (if w.files.appDir then layout.nested ++ [layout.root] else [layout.root])
  let top := w.files.dependencyState [layout.root]
  let carried := top.filter fun state =>
    decide (app.map DependencyState.root ≠ some state.root) &&
      (hasInstalledDependencies state.lock (w.tree state.root) || (w.record state.root).isSome)
  app.toList ++ carried.toList

/-- The patches that an install of a root applies, as `hashPatches`. -/
def Files.patchesFor (files : Files Dir) (state : DependencyState Dir) : String :=
  if state.lock = .npm then files.patches state.root else ""

def Files.inputs (files : Files Dir) (state : DependencyState Dir) : Inputs :=
  ⟨state.lock, (files.lock state.root state.lock).getD "", files.patchesFor state⟩

def pendingInstallEvidence (files : Files Dir) (state : DependencyState Dir) : InstallEvidence where
  lock := state.lock
  hash := (files.lock state.root state.lock).getD ""
  patches := files.patchesFor state
  completed := false
  treeProblems := none

/-- `pathChangedBetween` of the commit the run began at and the one it is at. -/
def lockfileChanged (before files : Files Dir) (state : DependencyState Dir) : Bool :=
  decide (before.lock state.root state.lock ≠ files.lock state.root state.lock)

def patchesChanged (before files : Files Dir) (state : DependencyState Dir) : Bool :=
  decide (state.lock = .npm) && decide (before.patches state.root ≠ files.patches state.root)

/-- `priorInstalls.get`, of a root that it has. -/
def Run.priorOf (run : Run Dir) (dir : Dir) : Option (Option InstallEvidence) :=
  (run.priorInstalls.find? fun entry => entry.1 = dir).map Prod.snd

/-- The record that the run decides by: the one before it marked the root. -/
def World.lastInstall (w : World Dir) (run : Run Dir) (state : DependencyState Dir) :
    Option InstallEvidence :=
  (run.priorOf state.root).getD (w.record state.root)

def World.depsInputs (w : World Dir) (run : Run Dir) (state : DependencyState Dir) :
    DepsInputs where
  lockfile := some state.lock
  lockfileChanged := lockfileChanged run.before w.files state
  patchesChanged := patchesChanged run.before w.files state
  installed := hasInstalledDependencies state.lock (w.tree state.root)
  treeProblems :=
    if state.lock = .npm ∧ hasInstalledDependencies state.lock (w.tree state.root) = true then
      some ""
    else none
  lastInstall := w.lastInstall run state
  lockHash := w.files.lock state.root state.lock
  patchesHash := w.files.patchesFor state

def World.writeInstallEvidence (w : World Dir) (dir : Dir) (evidence : Option InstallEvidence) :
    World Dir :=
  { w with record := Function.update w.record dir evidence }

/-- `restoreMarked`: put back the record that a marked root had, or its absence. -/
def World.restoreMarked (w : World Dir) (run : Run Dir) (dir : Dir) : World Dir :=
  if run.marked.any fun state => decide (state.root = dir) then
    w.writeInstallEvidence dir ((run.priorOf dir).getD none)
  else w

def World.setTree (w : World Dir) (dir : Dir) (tree : Tree) : World Dir :=
  { w with tree := Function.update w.tree dir tree }

def World.goto (w : World Dir) (pc : Pc Dir) : World Dir := { w with pc }

/-- What the world decides about a step: whether the command, the merge or the
Pods step succeeds, whether the install leaves a postinstall to run, and what of
the tree exists. -/
structure Outcome where
  ok : Bool
  postinstall : Bool
  markers : Markers
  deriving DecidableEq, Repr

/-- One step of a run. -/
def World.act (layout : Layout Dir) (w : World Dir) (o : Outcome) : World Dir :=
  match w.pc with
  | .idle | .returnedNull => w
  | .mark run target [] => w.goto (.fastForward run target)
  | .mark run target (state :: todo) =>
      (w.writeInstallEvidence state.root (some (pendingInstallEvidence w.files state))).goto
        (.mark run target todo)
  | .fastForward run target =>
      if o.ok then
        let moved := { w with files := target }
        moved.goto (.restore run (dependencyStates layout moved) run.marked)
      else w.goto .idle
  | .restore run roots [] => w.goto (.plan run roots [])
  | .restore run roots (state :: todo) =>
      if roots.any fun other => decide (other.root = state.root) then
        w.goto (.restore run roots todo)
      else (w.restoreMarked run state.root).goto (.restore run roots todo)
  | .plan _ [] owed => w.goto (.install owed)
  | .plan run (state :: todo) owed =>
      if (depsPlan (w.depsInputs run state)).run then
        w.goto (.plan run todo (owed ++ [state]))
      else (w.restoreMarked run state.root).goto (.plan run todo owed)
  | .install [] => w.goto (if o.ok then .returnedNull else .idle)
  | .install (state :: owed) =>
      let consumed := pendingInstallEvidence w.files state
      (w.writeInstallEvidence state.root (some consumed)).goto
        (.command state consumed (decide (state.lock = .npm) && o.postinstall) owed)
  | .command state consumed postinstall owed =>
      (w.setTree state.root (.unfinished o.markers)).goto (.running state consumed postinstall owed)
  | .running state consumed true owed =>
      if o.ok then w.goto (.command state consumed false owed) else w.goto .idle
  | .running state consumed false owed =>
      if o.ok then
        (w.setTree state.root (.complete o.markers consumed.inputs)).goto
          (.installed state consumed owed)
      else w.goto .idle
  | .installed state consumed owed =>
      (w.writeInstallEvidence state.root (some { consumed with
        completed := true
        treeProblems := if state.lock = .npm then some "" else none })).goto (.install owed)

/-- The records that a run begins with. -/
def World.priorInstalls (layout : Layout Dir) (w : World Dir) :
    List (Dir × Option InstallEvidence) :=
  (dependencyStates layout w).map fun state => (state.root, w.record state.root)

/-- A run begins; `upstream` is the commit that it will fast-forward to. -/
def World.start (layout : Layout Dir) (w : World Dir) (upstream : Option (Files Dir)) :
    World Dir :=
  let depsBefore := dependencyStates layout w
  match upstream with
  | none => w.goto (.restore ⟨w.files, w.priorInstalls layout, []⟩ depsBefore [])
  | some target => w.goto (.mark ⟨w.files, w.priorInstalls layout, depsBefore⟩ target depsBefore)

variable (Dir) in
/-- What may happen: a run begins, takes its next step, has its installer write
more of the tree, or dies. -/
inductive Action where
  | refreshMainCheckout (upstream : Option (Files Dir))
  | act (o : Outcome)
  | write (markers : Markers)
  | die

/-- Whether no run is under way. -/
def Pc.atRest : Pc Dir → Bool
  | .idle | .returnedNull => true
  | _ => false

def step (layout : Layout Dir) (w : World Dir) : Action Dir → Option (World Dir)
  | .refreshMainCheckout upstream => if w.pc.atRest then some (w.start layout upstream) else none
  | .act o => if w.pc.atRest then none else some (w.act layout o)
  | .write markers =>
      match w.pc with
      | .running state _ _ _ => some (w.setTree state.root (.unfinished markers))
      | _ => none
  | .die => if w.pc.atRest then none else some (w.goto .idle)

end Steps

end Stim.Cli.WorktreeRefresh
