import Stim.Lib.FileTree
import Stim.Lib.Interleaving

/-!
# Ownership claims

The claim store of `packages/core/ownership-claim.ts` on a POSIX file system.
A claim set lives in one directory, its *root*:

* `exclusive/ID.claim` is the exclusive claim; it is published by renaming a
  staged directory onto `exclusive`, which fails while that is not empty;
* `shared/ID.claim` are the shared claims, each renamed into place;
* `ID.child` beside a claim names the process the claim was handed to;
* `.staging-ID` and `.staging-child-ID` are the entries being prepared.

Every function of the source is a program over single file system requests, so
any other process may act, and this one may die, between any two of them.  The
Windows-only retries (`settledAnswer`, `yieldToRemoval`) are the identity on
POSIX and are left out, and so is `label`, which only words error messages.
-/

namespace Stim.OwnershipClaim

open Interleaving FileTree

inductive ClaimMode where
  | exclusive | shared
  deriving DecidableEq, Repr

/-- A process: its pid and the identity token that tells it from any other
process, earlier or later, with the same pid. -/
structure ClaimOwner where
  pid : Nat
  processToken : Nat
  deriving DecidableEq, Repr

/-- A `randomUUID`. -/
abbrev ClaimId := Nat

/-- The names the claim store uses. -/
inductive Name where
  | root
  | exclusive
  | shared
  | claim (claimId : ClaimId)
  | child (claimId : ClaimId)
  | staging (claimId : ClaimId)
  | stagingChild (claimId : ClaimId)
  deriving DecidableEq, Repr

/-- The order in which the source sorts a listing: by id, `.child` before
`.claim`. -/
def Name.key : Name → Nat × Nat
  | .stagingChild i => (0, i)
  | .staging i => (1, i)
  | .child i => (2, 2 * i)
  | .claim i => (2, 2 * i + 1)
  | .exclusive => (3, 0)
  | .shared => (4, 0)
  | .root => (5, 0)

def Name.le (a b : Name) : Bool :=
  decide (a.key.1 < b.key.1 ∨ a.key.1 = b.key.1 ∧ a.key.2 ≤ b.key.2)

abbrev ClaimPath := Path Name

/-- The directory that holds the claim set. -/
def root : ClaimPath := [.root]

def exclusiveClaimDir : ClaimPath := [.root, .exclusive]

def sharedClaimDir : ClaimPath := [.root, .shared]

/-- The directory of one mode. -/
def claimDir : ClaimMode → ClaimPath
  | .exclusive => exclusiveClaimDir
  | .shared => sharedClaimDir

def claimPath (mode : ClaimMode) (id : ClaimId) : ClaimPath := claimDir mode ++ [.claim id]

/-- The child record's path beside a claim: the claim's own with the suffix
changed. -/
def childPath (path : ClaimPath) : ClaimPath :=
  match path.getLast? with
  | some (.claim id) => path.dropLast ++ [.child id]
  | _ => path

def stagingPath (id : ClaimId) : ClaimPath := [.root, .staging id]

def stagedClaim (id : ClaimId) : ClaimPath := [.root, .staging id, .claim id]

def stagingChildPath (id : ClaimId) : ClaimPath := [.root, .stagingChild id]

/-- What the store writes into a file: a claim's record or a child record. -/
inductive Content (Details : Type) where
  | claim (claimId : ClaimId) (mode : ClaimMode) (owner : ClaimOwner)
      (startedAt : String) (details : Details)
  | child (record : Option ClaimOwner)
  deriving DecidableEq, Repr

structure ClaimHolder (Details : Type) where
  path : ClaimPath
  claimId : ClaimId
  mode : ClaimMode
  owner : ClaimOwner
  startedAt : String
  details : Details
  child : Option ClaimOwner
  childDeclared : Bool
  deriving DecidableEq, Repr

structure ClaimHandle (Details : Type) where
  path : ClaimPath
  claimId : ClaimId
  mode : ClaimMode
  owner : ClaimOwner
  startedAt : String
  details : Details
  deriving DecidableEq, Repr

structure ClaimProblem where
  path : ClaimPath
  reason : String
  deriving DecidableEq, Repr

structure ClaimSurvey (Details : Type) where
  live : List (ClaimHolder Details)
  dead : List (ClaimHolder Details)
  unresolved : List ClaimProblem
  orphans : List ClaimPath

structure ClaimSetState (Details : Type) where
  exclusive : Option (ClaimHolder Details)
  shared : List (ClaimHolder Details)
  reaped : List (ClaimHolder Details)

/-- `ClaimAttempt`: what an attempt to take a claim answers.  The source's
optional fields occur in exactly these combinations. -/
inductive ClaimAttempt (Details : Type) where
  | acquired (handle : ClaimHandle Details) (reaped : List (ClaimHolder Details))
  | held (holder : ClaimHolder Details) (reaped : List (ClaimHolder Details))
  | waitingFor (shared : List (ClaimHolder Details)) (pending : ClaimHandle Details)
      (reaped : List (ClaimHolder Details))

/-- The claims left behind that an attempt reaped. -/
def ClaimAttempt.reaped {Details : Type} : ClaimAttempt Details → List (ClaimHolder Details)
  | .acquired _ reaped => reaped
  | .held _ reaped => reaped
  | .waitingFor _ _ reaped => reaped

/-- What the functions throw. -/
inductive ClaimError where
  | refused (claimPath : ClaimPath) (reason : String)
  | unavailable (reason : String)
  | errno (code : Errno)
  deriving DecidableEq, Repr

inductive ClaimSetClearance (Details : Type) where
  | cleared
  | held (holder : Option (ClaimHolder Details))
  | refused (reason : String)
  | failed (reason : String)

inductive Liveness where
  | live | dead | unknown
  deriving DecidableEq, Repr

/-- `ProcessIdentityStatus`. -/
inductive ProcessIdentityStatus where
  | same | different | gone | unknown
  deriving DecidableEq, Repr

/-! ## Requests -/

section Requests

variable (Details : Type)

/-- The atomic requests.  `remember` and `forget` are the process's own local
variable that holds an acquired claim; they touch nothing else. -/
inductive Op where
  | mkdir (path : ClaimPath)
  | writeFile (path : ClaimPath) (content : Content Details)
  | rename (src dst : ClaimPath)
  | lstat (path : ClaimPath)
  | readdir (path : ClaimPath)
  | readFile (path : ClaimPath)
  | unlink (path : ClaimPath)
  | rmdir (path : ClaimPath)
  | inspectProcessIdentity (record : ClaimOwner)
  | processGroupAlive (record : ClaimOwner)
  | captureSelf
  | randomUUID
  | spawn (claimId : ClaimId) (child : ClaimOwner)
  | remember (handle : ClaimHandle Details)
  | forget (handle : ClaimHandle Details)

/-- The replies. -/
def Res : Op Details → Type
  | .mkdir _ => Except Errno Unit
  | .writeFile _ _ => Except Errno Unit
  | .rename _ _ => Except Errno Unit
  | .lstat _ => Option (Node (Content Details))
  | .readdir _ => Except Errno (List Name)
  | .readFile _ => Except Errno (Content Details)
  | .unlink _ => Except Errno Unit
  | .rmdir _ => Except Errno Unit
  | .inspectProcessIdentity _ => ProcessIdentityStatus
  | .processGroupAlive _ => Bool
  | .captureSelf => Except String ClaimOwner
  | .randomUUID => ClaimId
  | .spawn _ _ => Unit
  | .remember _ => Unit
  | .forget _ => Unit

/-- A program over those requests. -/
abbrev Code (α : Type) := Prog (Op Details) (Res Details) α

end Requests

/-! ## The functions of the source -/

section Functions

variable {Details : Type}

/-- Perform one request. -/
abbrev ask (o : Op Details) : Code Details (Res Details o) := Prog.perform o

/-- A file's record, `null` when it does not exist, or why it could not be read. -/
inductive Reading (α : Type) where
  | absent
  | unreadable (reason : String)
  | found (value : α)

/-- The reason `NOT_JSON` carries. -/
def notJson : String := "its record is missing, truncated or not valid JSON"

def readRecord (path : ClaimPath) (what : String) :
    Code Details (Reading (Content Details)) := do
  match ← ask (.readFile path) with
  | .ok content => return .found content
  | .error .ENOENT => return .absent
  | .error _ => return .unreadable s!"its {what} could not be read"

def readChild (path : ClaimPath) : Code Details (Reading (Option ClaimOwner)) := do
  match ← readRecord (childPath path) "child record" with
  | .absent => return .absent
  | .unreadable reason => return .unreadable reason
  | .found (.child record) => return .found record
  | .found (.claim ..) => return .found none

def readClaim (path : ClaimPath) (mode : ClaimMode) :
    Code Details (Reading (ClaimHolder Details)) := do
  match ← readRecord path "record" with
  | .absent => return .absent
  | .unreadable reason => return .unreadable reason
  | .found (.child _) => return .unreadable notJson
  | .found (.claim claimId _ owner startedAt details) =>
      match ← readChild path with
      | .unreadable reason => return .unreadable reason
      | .absent =>
          return .found ⟨path, claimId, mode, owner, startedAt, details, none, false⟩
      | .found record =>
          return .found ⟨path, claimId, mode, owner, startedAt, details, record, true⟩

/-- `none` is the source's `'none'`: no child record. -/
def childLiveness (path : ClaimPath) : Code Details (Option Liveness) := do
  match ← readChild path with
  | .absent => return none
  | .unreadable _ => return some .unknown
  | .found none => return some .unknown
  | .found (some record) =>
      match ← ask (.inspectProcessIdentity record) with
      | .same => return some .live
      | .gone =>
          -- `processGroupAlive` answers false for a pid of at most 1 unasked.
          if record.pid ≤ 1 then return some .dead
          else match ← ask (.processGroupAlive record) with
            | true => return some .live
            | false => return some .dead
      | .different => return some .unknown
      | .unknown => return some .unknown

def claimLiveness (holder : ClaimHolder Details) : Code Details Liveness := do
  match ← ask (.inspectProcessIdentity holder.owner) with
  | .same => return .live
  | .unknown => return .unknown
  | .different | .gone =>
      match ← childLiveness holder.path with
      | none => return .dead
      | some liveness => return liveness

/-- A directory's names in order, or `none` for `'unreadable'`. -/
def names (dir : ClaimPath) : Code Details (Option (List Name)) := do
  match ← ask (.lstat dir) with
  | none => return some []
  | some (.file _) => return none
  | some .dir =>
      match ← ask (.readdir dir) with
      | .ok listed => return some (listed.insertionSort fun a b => a.le b)
      | .error .ENOENT => return some []
      | .error _ => return none

def Name.isClaim : Name → Bool
  | .claim _ => true
  | _ => false

/-- Whether a name is a `.child` without the `.claim` it belongs to. -/
def Name.isOrphan (listed : List Name) : Name → Bool
  | .child id => decide (Name.claim id ∉ listed)
  | _ => false

/-- Why a claim whose holder cannot be told dead or alive is unresolved. -/
def unknownReason (holder : ClaimHolder Details) : String :=
  if holder.childDeclared && holder.child.isNone then
    "it spawned the process that holds it and was killed before recording which one"
  else "its process identity token does not decode, so the holder cannot be identified"

/-- A survey with one more problem. -/
def ClaimSurvey.problem (state : ClaimSurvey Details) (path : ClaimPath) (reason : String) :
    ClaimSurvey Details :=
  { state with unresolved := state.unresolved ++ [⟨path, reason⟩] }

/-- The loop of `survey` over one directory's listing. -/
def surveyClaims (dir : ClaimPath) (mode : ClaimMode) :
    List Name → ClaimSurvey Details → Code Details (ClaimSurvey Details)
  | [], state => return state
  | name :: rest, state => do
      if name.isClaim then
        let path := dir ++ [name]
        match ← readClaim path mode with
        | .absent => surveyClaims dir mode rest state
        | .unreadable reason => surveyClaims dir mode rest (state.problem path reason)
        | .found holder =>
            match ← claimLiveness holder with
            | .live => surveyClaims dir mode rest { state with live := state.live ++ [holder] }
            | .dead => surveyClaims dir mode rest { state with dead := state.dead ++ [holder] }
            | .unknown =>
                surveyClaims dir mode rest (state.problem path (unknownReason holder))
      else surveyClaims dir mode rest state

def survey (dir : ClaimPath) (mode : ClaimMode) (state : ClaimSurvey Details) :
    Code Details (ClaimSurvey Details) := do
  match ← names dir with
  | none => return state.problem dir "its directory could not be read"
  | some listed =>
      let orphans := listed.filter (Name.isOrphan listed)
      let state ← surveyClaims dir mode listed
        { state with orphans := state.orphans ++ orphans.map fun name => dir ++ [name] }
      let foreign := listed.filter fun name => name ∉ orphans
      if foreign ≠ [] ∧ listed.filter Name.isClaim = [] then
        return state.problem dir "it holds files Stim did not write"
      else return state

def readClaimSet : Code Details (ClaimSurvey Details) := do
  match ← ask (.lstat root) with
  | none => return ⟨[], [], [], []⟩
  | some (.file _) => return ⟨[], [], [⟨root, "it is not a real directory"⟩], []⟩
  | some .dir =>
      let state ← survey exclusiveClaimDir .exclusive ⟨[], [], [], []⟩
      survey sharedClaimDir .shared state

/-- Remove a file; a failure other than its absence refuses. -/
def removeOrRefuse (path claimPath : ClaimPath) : Code Details (Except ClaimError Unit) := do
  match ← ask (.unlink path) with
  | .ok _ => return .ok ()
  | .error .ENOENT => return .ok ()
  | .error _ =>
      return .error (.refused claimPath "the claim left behind could not be removed")

def reap (holder : ClaimHolder Details) : Code Details (Except ClaimError Bool) := do
  match ← readClaim holder.path holder.mode with
  | .absent => return .ok true
  | .unreadable _ => return .ok false
  | .found again =>
      if again.claimId ≠ holder.claimId then return .ok false
      else match ← removeOrRefuse (childPath holder.path) holder.path with
        | .error e => return .error e
        | .ok _ => match ← removeOrRefuse holder.path holder.path with
          | .error e => return .error e
          | .ok _ => return .ok true

/-- `rmdirSync` with its failure ignored. -/
def tidy (dir : ClaimPath) : Code Details Unit := do
  let _ ← ask (.rmdir dir)
  return ()

def removeOrphans : List ClaimPath → Code Details (Except ClaimError Unit)
  | [] => return .ok ()
  | orphan :: rest => do
      match ← removeOrRefuse orphan orphan with
      | .error e => return .error e
      | .ok _ => removeOrphans rest

def reapAll : List (ClaimHolder Details) → List (ClaimHolder Details) →
    Code Details (Except ClaimError (List (ClaimHolder Details)))
  | [], reaped => return .ok reaped
  | holder :: rest, reaped => do
      match ← reap holder with
      | .error e => return .error e
      | .ok true => reapAll rest (reaped ++ [holder])
      | .ok false => reapAll rest reaped

def tidyUnlessLive (mode : ClaimMode) (live : List (ClaimHolder Details)) :
    Code Details Unit :=
  if live.any (fun holder => holder.mode = mode) then return () else tidy (claimDir mode)

def inspectClaimSet : Code Details (Except ClaimError (ClaimSetState Details)) := do
  let state ← readClaimSet
  match state.unresolved with
  | problem :: _ => return .error (.refused problem.path problem.reason)
  | [] =>
      match ← removeOrphans state.orphans with
      | .error e => return .error e
      | .ok _ =>
          match ← reapAll state.dead [] with
          | .error e => return .error e
          | .ok reaped =>
              tidyUnlessLive .exclusive state.live
              tidyUnlessLive .shared state.live
              return .ok ⟨state.live.find? (fun holder => holder.mode = .exclusive),
                state.live.filter (fun holder => holder.mode = .shared), reaped⟩

/-- Node's recursive `mkdir`: create the path, its parent first when that is
missing.  `rounds` bounds how often it goes round while others remove what it
made; past that it answers `ENOENT`. -/
def mkdirRecursive : Nat → ClaimPath → Code Details (Except Errno Unit)
  | 0, _ => return .error .ENOENT
  | rounds + 1, path => do
      match ← ask (.mkdir path) with
      | .ok _ => return .ok ()
      | .error .ENOENT =>
          match ← mkdirRecursive rounds path.dropLast with
          | .error e => return .error e
          | .ok _ => mkdirRecursive rounds path
      | .error .EEXIST =>
          match ← ask (.lstat path) with
          | some .dir => return .ok ()
          | some (.file _) => return .error .EEXIST
          | none => return .error .ENOENT
      | .error e => return .error e

/-- The existing levels above `path` and itself, deepest first. -/
def levels (path : ClaimPath) : List ClaimPath :=
  (List.range path.length).reverse.map fun n => path.take (n + 1)

/-- The levels that do not exist, deepest first. -/
def missingLevels : List ClaimPath → Code Details (List ClaimPath)
  | [] => return []
  | level :: rest => do
      match ← ask (.lstat level) with
      | some _ => return []
      | none => return level :: (← missingLevels rest)

def createLevels : List ClaimPath → Code Details (Except Errno Unit)
  | [] => return .ok ()
  | level :: rest => do
      match ← ask (.mkdir level) with
      | .ok _ => createLevels rest
      | .error .EEXIST => createLevels rest
      | .error e => return .error e

def createClaimDir (rounds : Nat) (path : ClaimPath) : Code Details (Except Errno Unit) := do
  match ← mkdirRecursive rounds path with
  | .ok _ => return .ok ()
  | .error .ENOENT => do
      let missing ← missingLevels (levels path)
      createLevels missing.reverse
  | .error e => return .error e

/-- `rmSync` of a file with `force`. -/
def rmFile (path : ClaimPath) : Code Details (Except Errno Unit) := do
  match ← ask (.unlink path) with
  | .ok _ => return .ok ()
  | .error .ENOENT => return .ok ()
  | .error e => return .error e

def rmFiles (dir : ClaimPath) : List Name → Code Details (Except Errno Unit)
  | [] => return .ok ()
  | name :: rest => do
      match ← rmFile (dir ++ [name]) with
      | .error e => return .error e
      | .ok _ => rmFiles dir rest

/-- `rmSync` with `recursive` and `force`, for a file or a directory of files. -/
def rmRecursive (path : ClaimPath) : Code Details (Except Errno Unit) := do
  match ← ask (.lstat path) with
  | none => return .ok ()
  | some (.file _) => rmFile path
  | some .dir =>
      match ← ask (.readdir path) with
      | .error .ENOENT => return .ok ()
      | .error e => return .error e
      | .ok listed =>
          match ← rmFiles path listed with
          | .error e => return .error e
          | .ok _ =>
              match ← ask (.rmdir path) with
              | .ok _ => return .ok ()
              | .error .ENOENT => return .ok ()
              | .error e => return .error e

/-- The errors that mean another process got in the way (`contention`). -/
def isContention : Errno → Bool
  | .EEXIST | .ENOTEMPTY | .ENOENT | .EINVAL => true
  | .ENOTDIR | .EISDIR => false

/-- The deepest level that exists and is not a directory. -/
def blockingLevel : List ClaimPath → Code Details (Option ClaimPath)
  | [] => return none
  | level :: rest => do
      match ← ask (.lstat level) with
      | some (.file _) => return some level
      | _ => blockingLevel rest

def refuseNonDirectory {α : Type} (path : ClaimPath) :
    Code Details (Except ClaimError α) := do
  match ← blockingLevel (levels path) with
  | some level =>
      return .error (.refused level "the claim path is a file, not a claim directory")
  | none =>
      return .error (.unavailable
        "the non-directory path could not be identified; the claim store may have changed")

/-- The `try` block of `publishExclusive`. -/
def stageExclusive (rounds : Nat) (payload : Content Details) (claimId : ClaimId) :
    Code Details (Except Errno Unit) := do
  match ← createClaimDir rounds (stagingPath claimId) with
  | .error e => return .error e
  | .ok _ =>
      match ← ask (.writeFile (stagedClaim claimId) payload) with
      | .error e => return .error e
      | .ok _ => ask (.rename (stagingPath claimId) exclusiveClaimDir)

/-- `none` is the source's `Contention`. -/
def publishExclusive (rounds : Nat) (payload : Content Details) (claimId : ClaimId) :
    Code Details (Except ClaimError (Option ClaimPath)) := do
  match ← stageExclusive rounds payload claimId with
  | .ok _ => return .ok (some (claimPath .exclusive claimId))
  | .error e =>
      match ← rmRecursive (stagingPath claimId) with
      | .error e' => return .error (.errno e')
      | .ok _ =>
          if isContention e then return .ok none
          else if e = .ENOTDIR then refuseNonDirectory exclusiveClaimDir
          else return .error (.errno e)

/-- The `try` block of `publishShared`. -/
def stageShared (rounds : Nat) (payload : Content Details) (claimId : ClaimId) :
    Code Details (Except Errno Unit) := do
  match ← createClaimDir rounds sharedClaimDir with
  | .error e => return .error e
  | .ok _ =>
      match ← ask (.writeFile (stagingPath claimId) payload) with
      | .error e => return .error e
      | .ok _ => ask (.rename (stagingPath claimId) (claimPath .shared claimId))

def publishShared (rounds : Nat) (payload : Content Details) (claimId : ClaimId) :
    Code Details (Except ClaimError (Option ClaimPath)) := do
  match ← stageShared rounds payload claimId with
  | .ok _ => return .ok (some (claimPath .shared claimId))
  | .error e =>
      match ← rmFile (stagingPath claimId) with
      | .error e' => return .error (.errno e')
      | .ok _ => if isContention e then return .ok none else return .error (.errno e)

def releaseClaim (handle : ClaimHandle Details) : Code Details Bool := do
  match ← readClaim handle.path handle.mode with
  | .absent => return true
  | .unreadable _ => return false
  | .found current =>
      if current.claimId ≠ handle.claimId then return false
      else match ← rmFile (childPath handle.path) with
        | .error _ => return false
        | .ok _ => match ← rmFile handle.path with
          | .error _ => return false
          | .ok _ =>
              tidy (claimDir handle.mode)
              tidy root
              return true

/-- Inspect the set after publishing; release the claim when that throws. -/
def settleOrRelease (claim : ClaimHandle Details) :
    Code Details (Except ClaimError (ClaimSetState Details)) := do
  match ← inspectClaimSet with
  | .ok state => return .ok state
  | .error e =>
      let _ ← releaseClaim claim
      return .error e

def PUBLISH_ATTEMPTS : Nat := 64

/-- The end of `tryAcquireClaim`, once every attempt to publish was lost. -/
def giveUp (mode : ClaimMode) (reaped : List (ClaimHolder Details)) :
    Code Details (Except ClaimError (ClaimAttempt Details)) := do
  match ← inspectClaimSet with
  | .error e => return .error e
  | .ok contender =>
      let reaped := reaped ++ contender.reaped
      let holder := contender.exclusive.or
        (if mode = .exclusive then contender.shared.head? else none)
      match holder with
      | some holder => return .ok (.held holder reaped)
      | none => return .error (.refused root
          "another process took and gave up the claim on every one of 64 attempts to take it")

/-- One round of `tryAcquireClaim` after its inspection found no exclusive claim:
publish, then settle.  `none` means the publication was lost to contention. -/
def publishAndSettle (rounds : Nat) (mode : ClaimMode) (owner : ClaimOwner)
    (startedAt : String) (details : Details) (reaped : List (ClaimHolder Details)) :
    Code Details (Except ClaimError (Option (ClaimAttempt Details))) := do
  let claimId ← ask .randomUUID
  let payload : Content Details := .claim claimId mode owner startedAt details
  match mode with
  | .shared =>
      match ← publishShared rounds payload claimId with
      | .error e => return .error e
      | .ok none => return .ok none
      | .ok (some path) =>
          let claim : ClaimHandle Details :=
            ⟨path, claimId, .shared, owner, startedAt, details⟩
          match ← settleOrRelease claim with
          | .error e => return .error e
          | .ok settled =>
              match settled.exclusive with
              | none => return .ok (some (.acquired claim (reaped ++ settled.reaped)))
              | some holder =>
                  let _ ← releaseClaim claim
                  return .ok (some (.held holder (reaped ++ settled.reaped)))
  | .exclusive =>
      match ← publishExclusive rounds payload claimId with
      | .error e => return .error e
      | .ok none => return .ok none
      | .ok (some path) =>
          let claim : ClaimHandle Details :=
            ⟨path, claimId, .exclusive, owner, startedAt, details⟩
          match ← settleOrRelease claim with
          | .error e => return .error e
          | .ok settled =>
              if settled.shared.isEmpty then
                return .ok (some (.acquired claim (reaped ++ settled.reaped)))
              else
                return .ok (some (.waitingFor settled.shared claim
                  (reaped ++ settled.reaped)))

/-- The retry loop of `tryAcquireClaim`.  On POSIX no contention counts as a
denial, so the source's `denied` flag only tells whether a retry happened. -/
def acquireLoop (rounds : Nat) (mode : ClaimMode) (owner : ClaimOwner)
    (startedAt : String) (details : Details) :
    Nat → List (ClaimHolder Details) →
      Code Details (Except ClaimError (ClaimAttempt Details))
  | 0, reaped => giveUp mode reaped
  | attempts + 1, reaped => do
      match ← createClaimDir rounds root with
      | .error e =>
          if e = .EEXIST ∨ e = .ENOTDIR then refuseNonDirectory root
          else if isContention e then
            acquireLoop rounds mode owner startedAt details attempts reaped
          else return .error (.errno e)
      | .ok _ =>
          match ← inspectClaimSet with
          | .error e => return .error e
          | .ok state =>
              let reaped := reaped ++ state.reaped
              match state.exclusive with
              | some holder => return .ok (.held holder reaped)
              | none =>
                  match ← publishAndSettle rounds mode owner startedAt details reaped with
                  | .error e => return .error e
                  | .ok none =>
                      acquireLoop rounds mode owner startedAt details attempts reaped
                  | .ok (some attempt) => return .ok attempt

def tryAcquireClaim (rounds : Nat) (mode : ClaimMode) (startedAt : String)
    (details : Details) : Code Details (Except ClaimError (ClaimAttempt Details)) := do
  match ← ask .captureSelf with
  | .error reason => return .error (.unavailable reason)
  | .ok owner => acquireLoop rounds mode owner startedAt details PUBLISH_ATTEMPTS []

def settleClaim (pending : ClaimHandle Details) :
    Code Details (Except ClaimError (ClaimAttempt Details)) := do
  match ← inspectClaimSet with
  | .error e => return .error e
  | .ok state =>
      if state.shared.isEmpty then return .ok (.acquired pending state.reaped)
      else return .ok (.waitingFor state.shared pending state.reaped)

def tidySet : Code Details Unit := do
  tidy exclusiveClaimDir
  tidy sharedClaimDir
  tidy root

def Name.isStaging : Name → Bool
  | .staging _ | .stagingChild _ => true
  | _ => false

def removeStagings : List Name → Code Details (Except Errno Unit)
  | [] => return .ok ()
  | name :: rest => do
      if name.isStaging then
        match ← rmRecursive (root ++ [name]) with
        | .error e => return .error e
        | .ok _ => removeStagings rest
      else removeStagings rest

def removeAbandonedStaging : Code Details (Except Errno Unit) := do
  match ← names root with
  | none => return .ok ()
  | some listed => removeStagings listed

/-- What a set that was just tidied still holds. -/
def clearanceOf (remaining : List Name) (after : ClaimSurvey Details) :
    ClaimSetClearance Details :=
  match after.live with
  | holder :: _ => .held (some holder)
  | [] =>
      match after.unresolved with
      | problem :: _ => .refused problem.reason
      | [] =>
          if remaining ≠ [] then .failed "it still holds entries" else .cleared

def clearFreeClaimSet (rounds : Nat) (startedAt : String) (details : Details) :
    Code Details (ClaimSetClearance Details) := do
  match ← tryAcquireClaim rounds .exclusive startedAt details with
  | .error (.refused _ reason) => return .refused reason
  | .error (.unavailable reason) => return .refused reason
  | .error (.errno _) => return .failed "the claim could not be taken"
  | .ok (.held holder _) => return .held (some holder)
  | .ok (.waitingFor shared pending _) =>
      let _ ← releaseClaim pending
      return .held shared.head?
  | .ok (.acquired handle _) =>
      ask (.remember handle)
      let removed ← removeAbandonedStaging
      ask (.forget handle)
      let _ ← releaseClaim handle
      match removed with
      | .error _ => return .failed "the staging could not be removed"
      | .ok _ =>
          tidySet
          match ← names root with
          | none => return .failed "its directory could not be read"
          | some remaining => return clearanceOf remaining (← readClaimSet)

/-- The `try` block of `writeChild`. -/
def stageChild (handle : ClaimHandle Details) (record : Option ClaimOwner) :
    Code Details (Except Errno Unit) := do
  match ← ask (.writeFile (stagingChildPath handle.claimId) (.child record)) with
  | .error e => return .error e
  | .ok _ => ask (.rename (stagingChildPath handle.claimId) (childPath handle.path))

/-- Write a child record through its staging file. -/
def writeChild (handle : ClaimHandle Details) (record : Option ClaimOwner) :
    Code Details (Except ClaimError Unit) := do
  match ← stageChild handle record with
  | .ok _ => return .ok ()
  | .error e =>
      let _ ← rmFile (stagingChildPath handle.claimId)
      return .error (.errno e)

def markClaimChildPending (handle : ClaimHandle Details) :
    Code Details (Except ClaimError Unit) :=
  writeChild handle none

def setClaimChild (handle : ClaimHandle Details) (record : ClaimOwner) :
    Code Details (Except ClaimError Unit) :=
  writeChild handle (some record)

def clearClaimChild (handle : ClaimHandle Details) : Code Details (Except Errno Unit) :=
  rmFile (childPath handle.path)

end Functions

end Stim.OwnershipClaim
