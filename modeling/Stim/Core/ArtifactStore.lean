import Stim.Lib.Machine

/-!
# Publishing and evicting a build cache entry

`storeArtifactAsync` copies a build beside its entry, lets `writeMetadata` add to the copy, moves
the entry aside and the copy in, and puts the entry back when the move in fails.  `evictBuild`
moves an entry aside and removes it.  Neither takes a lock.

A call takes one file operation or one check of its signal at a time, and any number of calls of
any number of processes take turns.  What the code does not decide is a reply: how far a copy or a
removal got, what `writeMetadata` wrote, whether an operation failed.  A rename is decided: it
fails exactly when its source is gone or its target is a directory that is not empty.

A directory is the list of what is below it.  Left out are the parents of the entry, the times of
files, and everything of `storeBuild` around the call.
-/

namespace Stim.ArtifactStore

/-- A file below a directory, or a directory below it when it has no content. -/
structure Node where
  path : List String
  content : Option (List UInt8)
  deriving DecidableEq, Repr

abbrev Tree := List Node

namespace Tree

/-- Write a file, in place of the one that is there. -/
def put (tree : Tree) (node : Node) : Tree :=
  if tree.any (·.path = node.path) then
    tree.map fun other => if other.path = node.path then node else other
  else tree ++ [node]

/-- `readdirSync(dir).find((f) => f.endsWith('.app') || f.endsWith('.apk'))` -/
def artifact (tree : Tree) : Option String :=
  (tree.filterMap (·.path.head?)).find? fun f => f.endsWith ".app" || f.endsWith ".apk"

end Tree

/-- What `rename` puts at its target, or `none` when it fails. -/
def rename (source : Option Tree) : (target : Option Tree) → Option Tree
  | none | some [] => source
  | some (_ :: _) => none

/-- What the code leaves open about an operation. -/
inductive Reply where
  | ok
  | fails
  | writes (node : Node)
  | removes (node : Node)
  deriving DecidableEq, Repr

inductive Removal where
  | removing
  | removed
  | failed

/-- `rm(dir, { recursive: true, force: true })`, one entry at a time and the directory last. -/
def rm (dir : Option Tree) : Reply → Option (Option Tree × Removal)
  | .removes node => match dir with
    | some tree => if node ∈ tree then some (some (tree.erase node), .removing) else none
    | none => none
  | .ok => match dir with
    | none | some [] => some (none, .removed)
    | some (_ :: _) => none
  | .fails => some (dir, .failed)
  | .writes _ => none

/-! ## storeArtifactAsync -/

inductive Outcome where
  | returned (artifact : Option String)
  | thrown
  deriving DecidableEq, Repr

/-- The next operation of a call of `storeArtifactAsync`. -/
inductive Phase where
  | checkSignal
  | existsFirst
  | readFirst
  | makeStaging
  | checkCopy
  /-- `cp -c -R` when it clones and `cp -R` when it does not, and what it has yet to copy. -/
  | copy (clone : Bool) (left : List Node)
  | checkRemove
  | removeTarget
  | checkAgain
  | checkCopied
  | metadata
  | checkPublish
  | existsAgain
  | readAgain
  | makeParent
  | existsEntry
  | moveAside
  | moveIn
  | restore
  | renameFailed
  | existsLast
  | readLast
  | rmStaging (outcome : Outcome)
  | rmReplaced (outcome : Outcome)
  | ended (outcome : Outcome)
  /-- Its process died, with a copy under way or not. -/
  | dead (copying : Bool)
  deriving DecidableEq, Repr

structure StoreCall where
  pid : Nat
  /-- What `cp` makes of `buildPath` in an empty directory. -/
  build : Tree
  overwrite : Bool
  onRenameError : Bool
  aborted : Bool
  phase : Phase
  staging : Option Tree
  replaced : Option Tree
  /-- What `writeMetadata` has written, in order. -/
  written : List Node
  /-- `writeMetadata` has resolved. -/
  complete : Bool
  /-- One of its renames has succeeded. -/
  renamed : Bool
  deriving DecidableEq, Repr

namespace StoreCall

/-- A call at its first line. -/
def begin (pid : Nat) (build : Tree) (overwrite onRenameError : Bool) : StoreCall where
  pid := pid
  build := build
  overwrite := overwrite
  onRenameError := onRenameError
  aborted := false
  phase := .checkSignal
  staging := none
  replaced := none
  written := []
  complete := false
  renamed := false

/-- The whole copied build with everything that `writeMetadata` wrote. -/
def tree (c : StoreCall) : Tree := c.written.foldl Tree.put c.build

def goto (c : StoreCall) (phase : Phase) : StoreCall := { c with phase := phase }

/-- `signal?.throwIfAborted()` in the `try`. -/
def check (c : StoreCall) (next : Phase) : StoreCall :=
  c.goto (if c.aborted then .rmStaging .thrown else next)

/-- `readdirSync` of `artifactIn`, whose errors make it answer `null`. -/
def readEntry (entry : Option Tree) : Reply → Option (Option String)
  | .ok => some (entry.bind Tree.artifact)
  | .fails => some none
  | _ => none

/-- One operation of a call and what it leaves at the entry. -/
def step (c : StoreCall) (entry : Option Tree) (reply : Reply) :
    Option (Option Tree × StoreCall) :=
  match c.phase, reply with
  | .checkSignal, .ok =>
      some (entry, c.goto (if c.aborted then .ended .thrown else .existsFirst))
  | .existsFirst, .ok =>
      some (entry, c.goto (if entry.isSome then .readFirst else .makeStaging))
  | .readFirst, reply => (readEntry entry reply).map fun existing =>
      (entry, c.goto (if existing.isSome && !c.overwrite then .ended (.returned existing)
        else .makeStaging))
  | .makeStaging, .ok => some (entry, { c with staging := some [], phase := .checkCopy })
  -- `mkdir` is outside the `try`.
  | .makeStaging, .fails => some (entry, c.goto (.ended .thrown))
  | .checkCopy, .ok => some (entry, c.check (.copy true c.build))
  | .copy clone (node :: left), .ok => some (entry,
      { c with staging := c.staging.map (· ++ [node]), phase := .copy clone left })
  | .copy _ [], .ok => some (entry, c.goto .checkCopied)
  | .copy true _, .fails => some (entry, c.goto .checkRemove)
  | .copy false _, .fails => some (entry, c.goto (.rmStaging .thrown))
  | .checkRemove, .ok => some (entry, c.check .removeTarget)
  | .removeTarget, .removes node => match c.staging with
    | some tree => if node ∈ tree then
        some (entry, { c with staging := some (tree.erase node) }) else none
    | none => none
  | .removeTarget, .ok =>
      if c.staging = some [] then some (entry, c.goto .checkAgain) else none
  | .removeTarget, .fails => some (entry, c.goto (.rmStaging .thrown))
  | .checkAgain, .ok => some (entry, c.check (.copy false c.build))
  | .checkCopied, .ok => some (entry, c.check .metadata)
  | .metadata, .writes node => some (entry, { c with
      staging := c.staging.map (Tree.put · node), written := c.written ++ [node] })
  | .metadata, .ok => some (entry, { c with complete := true, phase := .checkPublish })
  | .metadata, .fails => some (entry, c.goto (.rmStaging .thrown))
  | .checkPublish, .ok => some (entry, c.check .existsAgain)
  | .existsAgain, .ok =>
      some (entry, c.goto (if entry.isSome then .readAgain else .makeParent))
  | .readAgain, reply => (readEntry entry reply).map fun published =>
      (entry, c.goto (if published.isSome && !c.overwrite
        then .rmStaging (.returned published) else .makeParent))
  | .makeParent, .ok => some (entry, c.goto .existsEntry)
  | .makeParent, .fails => some (entry, c.goto (.rmStaging .thrown))
  | .existsEntry, .ok =>
      some (entry, c.goto (if entry.isSome then .moveAside else .moveIn))
  | .moveAside, .ok => some <| match rename entry c.replaced with
    | some tree => (none, { c with replaced := some tree, renamed := true, phase := .moveIn })
    | none => (entry, c.goto (.rmStaging .thrown))
  | .moveIn, .ok => some <| match rename c.staging entry with
    | some tree => (some tree, { c with staging := none, renamed := true, phase := .existsLast })
    | none => (entry, c.goto .restore)
  | .restore, .ok => some <| match rename c.replaced entry with
    | some tree => (some tree, { c with replaced := none, renamed := true, phase := .renameFailed })
    | none => (entry, c.goto .renameFailed)
  | .renameFailed, .ok =>
      some (entry, c.goto (if c.onRenameError then .existsLast else .rmStaging .thrown))
  -- What a handler does in the staging directory that it is given.
  | .renameFailed, .writes node => if c.onRenameError then
      some (entry, { c with staging := c.staging.map (Tree.put · node) }) else none
  | .renameFailed, .fails =>
      if c.onRenameError then some (entry, c.goto (.rmStaging .thrown)) else none
  | .existsLast, .ok =>
      some (entry, c.goto (if entry.isSome then .readLast else .rmStaging (.returned none)))
  | .readLast, reply => (readEntry entry reply).map fun found =>
      (entry, c.goto (.rmStaging (.returned found)))
  | .rmStaging outcome, reply => (rm c.staging reply).map fun (staging, removal) =>
      (entry, { c with staging := staging, phase := match removal with
        | .removing => .rmStaging outcome
        | .removed => .rmReplaced outcome
        | .failed => .ended .thrown })
  | .rmReplaced outcome, reply => (rm c.replaced reply).map fun (replaced, removal) =>
      (entry, { c with replaced := replaced, phase := match removal with
        | .removing => .rmReplaced outcome
        | .removed => .ended outcome
        | .failed => .ended .thrown })
  | _, _ => none

def copying (c : StoreCall) : Bool :=
  match c.phase with
  | .copy _ _ => true
  | _ => false

/-- Its process dies. -/
def die (c : StoreCall) : StoreCall :=
  match c.phase with
  | .ended _ | .dead _ => c
  | _ => c.goto (.dead c.copying)

end StoreCall

/-! ## evictBuild -/

inductive EvictPhase where
  | rmOld
  | rename
  | rmEvicted
  | ended (removed : Bool)
  | dead
  deriving DecidableEq, Repr

structure EvictCall where
  pid : Nat
  phase : EvictPhase
  deriving DecidableEq, Repr

namespace EvictCall

/-- One operation of a call, on the entry and on the directory it is moved to. -/
def step (e : EvictCall) (entry evicted : Option Tree) (reply : Reply) :
    Option (Option Tree × Option Tree × EvictCall) :=
  match e.phase, reply with
  | .rmOld, reply => (rm evicted reply).map fun (evicted, removal) =>
      (entry, evicted, { e with phase := match removal with
        | .removing => .rmOld
        | .removed => .rename
        | .failed => .ended false })
  | .rename, .ok => some <| match ArtifactStore.rename entry evicted with
    | some tree => (none, some tree, { e with phase := .rmEvicted })
    | none => (entry, evicted, { e with phase := .ended false })
  | .rmEvicted, reply => (rm evicted reply).map fun (evicted, removal) =>
      (entry, evicted, { e with phase := match removal with
        | .removing => .rmEvicted
        -- A failure of the second removal is caught.
        | .removed | .failed => .ended true })
  | _, _ => none

def die (e : EvictCall) : EvictCall :=
  match e.phase with
  | .ended _ | .dead => e
  | _ => { e with phase := .dead }

end EvictCall

/-! ## The calls on one entry -/

structure State where
  entry : Option Tree
  /-- The calls of `storeArtifactAsync`, by the token in the names of their directories. -/
  stores : Nat → Option StoreCall
  evicts : Nat → Option EvictCall
  /-- The directory that evictions of a process use. -/
  evicted : Nat → Option Tree

/-- No call has begun.  Directories of evictions may be left from before. -/
def start (initial : Option Tree) (evicted : Nat → Option Tree) : State where
  entry := initial
  stores := fun _ => none
  evicts := fun _ => none
  evicted := evicted

inductive Action where
  | store (token pid : Nat) (build : Tree) (overwrite onRenameError : Bool)
  | storeStep (token : Nat) (reply : Reply)
  | abort (token : Nat)
  | evict (call pid : Nat)
  | evictStep (call : Nat) (reply : Reply)
  | die (pid : Nat)
  /-- A copy outlives its process for a while. -/
  | orphan (token : Nat) (node : Node)

/-- The call of `storeArtifactAsync` whose action it is, its child's among them. -/
def Action.caller : Action → Option Nat
  | .store token _ _ _ _ | .storeStep token _ | .abort token | .orphan token _ => some token
  | .evict _ _ | .evictStep _ _ | .die _ => none

def State.setStore (s : State) (token : Nat) (entry : Option Tree) (c : StoreCall) : State :=
  { s with entry := entry, stores := Function.update s.stores token (some c) }

/-- Every call of a process stops where it is. -/
def State.die (s : State) (pid : Nat) : State :=
  { s with
    stores := fun token => (s.stores token).map fun c => if c.pid = pid then c.die else c
    evicts := fun call => (s.evicts call).map fun e => if e.pid = pid then e.die else e }

/-- One action; `none` when it cannot happen. -/
def step (s : State) : Action → Option State
  | .store token pid build overwrite onRenameError => match s.stores token with
    | some _ => none
    | none => some (s.setStore token s.entry (.begin pid build overwrite onRenameError))
  | .storeStep token reply => (s.stores token).bind fun c =>
      (c.step s.entry reply).map fun (entry, c') => s.setStore token entry c'
  | .abort token => (s.stores token).map fun c =>
      s.setStore token s.entry { c with aborted := true }
  | .evict call pid => match s.evicts call with
    | some _ => none
    | none => some { s with evicts := Function.update s.evicts call (some ⟨pid, .rmOld⟩) }
  | .evictStep call reply => (s.evicts call).bind fun e =>
      (e.step s.entry (s.evicted e.pid) reply).map fun (entry, evicted, e') =>
        { s with
          entry := entry
          evicts := Function.update s.evicts call (some e')
          evicted := Function.update s.evicted e.pid evicted }
  | .die pid => some (s.die pid)
  | .orphan token node => (s.stores token).bind fun c =>
      if c.phase = .dead true then
        some (s.setStore token s.entry { c with staging := c.staging.map (· ++ [node]) })
      else none

end Stim.ArtifactStore
