import Stim.Cli.HomeSchema
import Stim.Cli.Version

/-!
# The engine store

The store of `packages/stim-cli/src/engine-store`: the trees of builds, the records that name
them (`current.json`, `previous`, `staged.json`, `state.json`) and the four operations that
change them under the promotion lock: `promote`, `flipStaged`, the crash-loop hold and
`collectStore`.

What an operation reads outside of the store (claims, processes, job uses, the homes' schema
markers, the self-test) is its `Reads`, and may be anything at each operation; so may the order in
which `toSorted` leaves versions that do not all compare.
-/

namespace Stim.Cli

inductive Channel
  | latest | next
  deriving DecidableEq

/-- A sealed tree: its manifest, and whether it has `dist/engine-select.mjs`. -/
structure Tree where
  version : String
  schema : Nat
  engineSelect : Bool
  deriving DecidableEq

/-- `current.json`, the engine pointer. -/
structure Current where
  version : String
  dir : String
  channel : Channel
  pinned : Bool
  pinReason : Option String
  setBy : String
  deriving DecidableEq

/-- `staged.json` -/
structure Staged where
  dir : String
  version : String
  setBy : String
  pinReason : Option String
  pinned : Option Bool
  channel : Option Channel
  restoreState : Bool
  deriving DecidableEq

structure Installed where
  dir : String
  version : String
  deriving DecidableEq

/-- A build that a crash loop marked bad. -/
structure BadBuild where
  build : String
  version : String
  deriving DecidableEq

/-- `state.json` -/
structure StoreState where
  installed : List Installed
  bad : List BadBuild
  deriving DecidableEq

def badKept : Nat := 20

/-- The order of `toSorted`: not after, where `NaN` counts as zero. -/
def sortsBefore (a b : String) : Bool := (compareVersions a b).getD .zero != .positive

/-- `toSorted` of versions.  Only for a consistent comparison is its order the language's. -/
structure VersionSort where
  sort : List String → List String
  perm : ∀ versions, (sort versions).Perm versions
  sorted : ∀ versions, (∀ v ∈ versions, wellFormed v = true) →
    sort versions = versions.mergeSort sortsBefore

/-! ## What an operation reads outside of the store -/

/-- The claims under one build's claim root; a live claim is the `engineDirs` it records. -/
structure BuildClaims where
  build : String
  live : List (List String)
  unresolved : Nat
  deriving DecidableEq

structure JobUse where
  build : String
  usedAt : Nat
  deriving DecidableEq

/-- A root and the home below it. -/
abbrev RootedHome := String × Home

structure Reads where
  /-- `readBuildClaims` when `promote` decides to flip or to stage -/
  claims : List BuildClaims
  /-- `readBuildClaims` in `collectStore` -/
  claimsAtCollect : List BuildClaims
  jobUses : List JobUse
  now : Nat
  /-- `runningFromReason` is not null -/
  runningFrom : String → Bool
  /-- the Stim home and the machine root -/
  homes : List RootedHome
  selfTest : Bool
  /-- `restoreSchema` returns -/
  restores : Bool
  /-- `.flip.sock` is free -/
  flipLock : Bool
  /-- `migrateHomes` returns -/
  migrates : Bool
  toSorted : VersionSort

/-- The first home that a build of `schema` cannot read. -/
def Reads.homeRefusal (reads : Reads) (schema : Nat) : Option String :=
  reads.homes.findSome? fun (root, home) => schemaRefusal root home schema

def BuildClaims.held (claims : BuildClaims) : Bool :=
  !claims.live.isEmpty || decide (0 < claims.unresolved)

/-- Whether any stimd claim is live or cannot be resolved: then a build is staged. -/
def claimsHeld (claims : List BuildClaims) : Bool := claims.any BuildClaims.held

/-- The builds that claims keep: those with a live or unresolved claim, and every `engineDirs`
entry of a live claim. -/
def claimedEntries (claims : List BuildClaims) : List String :=
  claims.flatMap fun each => (if each.held then [each.build] else []) ++ each.live.flatten

def jobKeepMs : Nat := 24 * 60 * 60000

def jobBuildsKept : Nat := 3

/-- The three client builds that jobs used last within 24 hours. -/
def keptJobUses (uses : List JobUse) (now : Nat) : List JobUse :=
  ((uses.filter fun use => now < use.usedAt + jobKeepMs).mergeSort
    fun a b => b.usedAt ≤ a.usedAt).take jobBuildsKept

/-! ## Unattended moves -/

/-- `(compareVersions(a, b) ?? none) <= 0`; a comparison with `NaN` is false. -/
def atMost (sign : Option Sign) (missing : Sign) : Bool :=
  match sign.getD missing with
  | .negative | .zero => true
  | .positive | .nan => false

/-- The newest version a crash loop marked bad. -/
def newestBad (toSorted : VersionSort) (bad : List BadBuild) : Option String :=
  (toSorted.sort (bad.map BadBuild.version)).getLast?

/-- Why the engine is kept off `target`, or `none`. -/
def promotionRefusal (toSorted : VersionSort) (target : String) (current : Option Current) (bad : List BadBuild)
    (explicit exactRequest : Bool) : Option String :=
  if explicit then none
  else match current with
    | none => some "no engine is installed; run stim engine install"
    | some current =>
        if current.pinned then
          let pinReason := current.pinReason.getD "null"
          some s!"the engine is pinned at {current.version} ({pinReason}); run stim engine update to resume updates"
        else if (newestBad toSorted bad).any fun worst =>
            worst != "" && atMost (compareVersions target worst) .positive then
          some s!"{target} is marked bad (crash loop); the engine stays on {current.version}"
        else if atMost (compareVersions target current.version) .zero then
          some s!"{target} is not newer than the engine ({current.version})"
        else if target.toList.contains '-' && current.channel == .latest && !exactRequest then
          some s!"{target} is a prerelease and the engine follows latest; run stim engine use --channel next"
        else none

/-! ## The store -/

/-- What a promotion was decided on; no operation reads it back. -/
structure Decision where
  explicit : Bool
  target : String
  current : Option Current
  bad : List BadBuild
  deriving DecidableEq

structure Store where
  trees : String → Option Tree
  current : Option Current
  previous : Option String
  staged : Option Staged
  state : StoreState
  /-- the decision behind `staged` -/
  stagedOn : Option Decision
  /-- the decisions behind the flips so far, oldest first -/
  flips : List Decision

def Store.empty : Store where
  trees := fun _ => none
  current := none
  previous := none
  staged := none
  state := ⟨[], []⟩
  stagedOn := none
  flips := []

def Store.writeState (s : Store) (state : StoreState) : Store :=
  { s with state := { state with bad := state.bad.drop (state.bad.length - badKept) } }

/-- The trees that the records name. -/
def Store.named (s : Store) : List String :=
  (s.current.map Current.dir).toList ++ s.previous.toList ++ (s.staged.map Staged.dir).toList

def keptEntries (s : Store) (claims : List BuildClaims) : List String :=
  s.named ++ claimedEntries claims

/-- Removes the trees that nothing can run. -/
def collectStore (reads : Reads) (s : Store) : Store :=
  let kept := keptEntries s reads.claimsAtCollect ++
    (keptJobUses reads.jobUses reads.now).map JobUse.build
  let trees := fun dir => if kept.contains dir || reads.runningFrom dir then s.trees dir else none
  { s with trees, state := { s.state with
      installed := s.state.installed.filter fun each => (trees each.dir).isSome } }

/-- A store entry, or a package outside with the build and tree its fetch and seal give. -/
inductive Source
  | entry (dir : String)
  | outside (fetched : Option (String × Tree))
  deriving DecidableEq

structure Promotion where
  source : Source
  setBy : String
  explicit : Bool
  pinReason : Option String
  pinned : Option Bool
  channel : Option Channel
  restoreState : Bool
  deriving DecidableEq

inductive PromotionResult
  | flipped (dir : String)
  | staged (dir : String)
  | refused (reason : String)
  | thrown
  deriving DecidableEq

/-- `seal`: an entry that is there already stays. -/
def sealTree (build : String) (tree : Tree) (s : Store) : Store :=
  { s with trees := Function.update s.trees build (some ((s.trees build).getD tree)) }

/-- The build of the promotion, with its tree in the store. -/
def Source.obtain (source : Source) (s : Store) : Option (String × Store) :=
  match source with
  | .entry dir => some (dir, s)
  | .outside none => none
  | .outside (some (build, tree)) => some (build, sealTree build tree s)

/-- What the build's own `engine-select` is given by its command line. -/
def handOver (promotion : Promotion) (build : String) : Promotion :=
  let pinReason := promotion.pinReason.filter (· ≠ "")
  { promotion with
    source := .entry build
    pinReason
    pinned := if pinReason.isSome && promotion.pinned == some false then some false else none }

/-- Points the engine at `build`. -/
def flip (build : String) (tree : Tree) (promotion : Promotion) (decision : Decision)
    (s : Store) : Store :=
  { s with
    previous := match s.current with
      | some current => if current.dir ≠ build then some current.dir else s.previous
      | none => s.previous
    current := some {
      version := tree.version
      dir := build
      channel := promotion.channel.getD ((s.current.map Current.channel).getD
        (if tree.version.toList.contains '-' then .next else .latest))
      pinned := promotion.pinned.getD (promotion.pinReason.any (· ≠ ""))
      pinReason := promotion.pinReason
      setBy := promotion.setBy }
    staged := none
    stagedOn := none
    flips := s.flips ++ [decision] }

/-- The part of `promote` that runs in the build it points the engine at. -/
def select (reads : Reads) (promotion : Promotion) (build : String) (tree : Tree) (s : Store) :
    Store × PromotionResult :=
  let refusal := (promotionRefusal reads.toSorted tree.version s.current s.state.bad promotion.explicit
    (promotion.setBy == "engine.update")).or
    (if promotion.restoreState then none else reads.homeRefusal tree.schema)
  match refusal with
  | some reason => (collectStore reads s, .refused reason)
  | none =>
      if !reads.selfTest then (collectStore reads s, .thrown)
      else
        let decision := ⟨promotion.explicit, tree.version, s.current, s.state.bad⟩
        let recorded := s.writeState { s.state with
          installed := s.state.installed.filter (·.dir ≠ build) ++ [⟨build, tree.version⟩] }
        if claimsHeld reads.claims then
          let staged := { recorded with
            staged := some {
              dir := build
              version := tree.version
              setBy := promotion.setBy
              pinReason := promotion.pinReason
              pinned := if promotion.pinned = some false then some false else none
              channel := promotion.channel
              restoreState := promotion.restoreState }
            stagedOn := some decision }
          (collectStore reads staged, .staged build)
        else if promotion.restoreState && !reads.restores then (recorded, .thrown)
        else if !reads.flipLock then (recorded, .thrown)
        else if !reads.migrates then (flip build tree promotion decision recorded, .thrown)
        else (collectStore reads (flip build tree promotion decision recorded), .flipped build)

/-- Puts a build into the store and points the engine at it, or stages it. -/
def promote (reads : Reads) (own : Option String) (promotion : Promotion) (s : Store) :
    Store × PromotionResult :=
  match promotion.source.obtain s with
  | none => (s, .thrown)
  | some (build, fetched) => match fetched.trees build with
    | none => (fetched, .thrown)
    | some tree =>
        if !tree.engineSelect then
          (collectStore reads fetched,
            .refused s!"stim {tree.version} predates the engine store; choose a later version")
        else
          select reads (if own = some build then promotion else handOver promotion build) build tree
            fetched

def notStaged (own : Option String) : PromotionResult :=
  .refused (own.getD "this build" ++ " is not the staged build")

/-- The drained running build's handover, run in the staged build. -/
def flipStaged (reads : Reads) (own : Option String) (promotion : Promotion) (s : Store) :
    Store × PromotionResult :=
  match s.staged, s.stagedOn with
  | some staged, some decision =>
      if own ≠ some staged.dir then (s, notStaged own)
      else match s.trees staged.dir with
        | none => (s, .thrown)
        | some tree =>
            let refusal := if staged.restoreState then none
              else reads.homeRefusal tree.schema
            match refusal with
            | some reason => ({ s with staged := none, stagedOn := none }, .refused reason)
            | none =>
                if staged.restoreState && !reads.restores then (s, .thrown)
                else
                  let flipped := flip staged.dir tree { promotion with
                    setBy := staged.setBy
                    pinReason := staged.pinReason
                    pinned := staged.pinned
                    channel := staged.channel.or promotion.channel } decision s
                  if !reads.migrates then (flipped, .thrown)
                  else (collectStore reads flipped, .flipped staged.dir)
  | _, _ => (s, notStaged own)

/-- What the next boot of a crash-looping build does: go back, or stop with the remedy. -/
def crashLoopAction (version : String) (previous : Option (String × Tree))
    (homes : List RootedHome) : String ⊕ String :=
  match previous with
  | none => .inr s!"engine {version} crashes and has no previous build to go back to; run stim engine use <version> or stim engine update"
  | some (dir, tree) => match homes.find? fun each => tree.schema < schemaOf each.2 with
    | none => .inl dir
    | some (root, home) =>
        let writer := ((readSchema home).map Prod.snd).getD ""
        let author := if writer = version then "it" else writer
        let schema := schemaOf home
        .inr s!"engine {version} crashes and home {root} was migrated to schema {schema} by {author}; run stim engine rollback --restore-state or stim engine update"

inductive CrashHold
  | rolledBack (build version : String)
  | staged (build : String)
  | stop (reason : String)
  | moved
  | thrown
  deriving DecidableEq

/-- `engine-select --explicit --locked --hold` -/
def crashRollback (version dir : String) : Promotion where
  source := .entry dir
  setBy := "crash-loop"
  explicit := true
  pinReason := some s!"crash loop in {version}"
  pinned := some false
  channel := none
  restoreState := false

/-- The boot after three abnormal exits of `build`: marks it bad and goes back to `previous`. -/
def holdCrashLoop (reads : Reads) (build version : String) (claimedHomes : List RootedHome)
    (s : Store) : Store × CrashHold :=
  if s.current.map Current.dir ≠ some build then (s, .moved)
  else
    let marked := s.writeState { s.state with
      bad := s.state.bad.filter (·.build ≠ build) ++ [⟨build, version⟩] }
    let previous := s.previous.bind fun dir => (s.trees dir).map fun tree => (dir, tree)
    match crashLoopAction version previous claimedHomes with
    | .inr reason => (marked, .stop reason)
    | .inl dir =>
        let backTo := (previous.map fun each => each.2.version).getD ""
        match promote reads (some dir) (crashRollback version dir) marked with
        | (after, .flipped target) => (after, .rolledBack target backTo)
        | (after, .staged target) => (after, .staged target)
        | (after, .refused reason) =>
            (after, .stop s!"engine {version} crashes and going back to {backTo} was refused: {reason}")
        | (after, .thrown) => (after, .thrown)

/-! ## Runs -/

inductive StoreOp
  | promote (own : Option String) (promotion : Promotion)
  | flipStaged (own : Option String) (promotion : Promotion)
  | holdCrashLoop (build version : String) (claimedHomes : List RootedHome)
  | collectStore

/-- One operation under the promotion lock, with what it reads. -/
def storeStep (s : Store) : Reads × StoreOp → Store
  | (reads, .promote own promotion) => (promote reads own promotion s).1
  | (reads, .flipStaged own promotion) => (flipStaged reads own promotion s).1
  | (reads, .holdCrashLoop build version claimedHomes) =>
      (holdCrashLoop reads build version claimedHomes s).1
  | (reads, .collectStore) => collectStore reads s

/-- The store after operations from the empty one. -/
def storeRun (ops : List (Reads × StoreOp)) : Store := ops.foldl storeStep Store.empty

end Stim.Cli
