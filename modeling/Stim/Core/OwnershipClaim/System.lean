import Stim.Core.OwnershipClaim

/-!
# Processes sharing one claim set

The world the claim programs run in: the file system, which processes and
process groups are alive, and what each process holds.  A process starts one
call at a time, and may die between any two requests.  Besides the state proper
the world keeps a history that no program reads: which process drew each claim
id, the order in which claims were published, each process's last request, and
the claims that were ever answered as `acquired`.

Process identity is ideal: a live process reads as `same`, a dead one as `gone`,
or as `different` when its pid is in use again.  A process group reads as alive
while a member is, and may still read so when its id is in use again.
-/

namespace Stim.OwnershipClaim

open Interleaving FileTree

inductive Life where
  | unborn | alive | dead
  deriving DecidableEq, Repr

/-- What one process has in its variables. -/
structure Memory (Details : Type) where
  /-- Claims answered as `acquired` that it has not begun to release. -/
  acquired : List (ClaimHandle Details)
  /-- Exclusive claims that still wait for shared ones. -/
  pending : List (ClaimHandle Details)
  /-- The claims its calls reported as dead or reaped. -/
  buried : List (ClaimHolder Details)
  /-- Whether it is inside `clearFreeClaimSet`. -/
  clearing : Bool

/-- The variables of a process that has not run. -/
def Memory.empty {Details : Type} : Memory Details := ⟨[], [], [], false⟩

structure World (Details : Type) where
  tree : Tree Name (Content Details)
  life : ClaimOwner → Life
  /-- Whether a member of the process group this process leads is alive. -/
  group : ClaimOwner → Life
  memory : ClaimOwner → Memory Details
  /-- The process that drew a claim id. -/
  issuedTo : ClaimId → Option ClaimOwner
  /-- The claims in the order their publishing renames happened. -/
  published : List ClaimId
  /-- The last request of each process. -/
  last : ClaimOwner → Option (Op Details)
  /-- The claims ever answered as `acquired`. -/
  granted : List ClaimId
  /-- The claims whose owner completed `markClaimChildPending` and has since
  begun neither `clearClaimChild` nor `releaseClaim`. -/
  marked : ClaimId → Bool
  /-- The child spawned since the claim was last marked. -/
  spawned : ClaimId → Option ClaimOwner

variable {Details : Type}

/-- No claim set yet; `life` says which processes exist. -/
def World.init (life : ClaimOwner → Life) : World Details where
  tree := []
  life := life
  group := fun _ => .unborn
  memory := fun _ => Memory.empty
  issuedTo := fun _ => none
  published := []
  last := fun _ => none
  granted := []
  marked := fun _ => false
  spawned := fun _ => none

/-- What the world leaves open: the next random id, whether a pid or group id
is in use again, whether the identity library fails, and which group ends. -/
structure Oracle where
  id : ClaimId := 0
  recycled : Bool := false
  failure : Option String := none
  leader : ClaimOwner := ⟨0, 0⟩

/-- The claim a successful rename publishes, for the history. -/
def publishes : ClaimPath → ClaimPath → Option ClaimId
  | [.root, .staging id], [.root, .exclusive] => some id
  | _, [.root, .shared, .claim id] => some id
  | _, _ => none

/-- The world after a tree operation, and its reply. -/
def applyTree (w : World Details) : Except Errno (Tree Name (Content Details)) →
    Except Errno Unit × World Details
  | .ok tree => (.ok (), { w with tree })
  | .error e => (.error e, w)

/-- What a request answers and does, without the history of requests. -/
def perform (oracle : Oracle) (p : ClaimOwner) : (o : Op Details) → World Details →
    Option (Res Details o × World Details)
  | .mkdir path, w => some (applyTree w (mkdir w.tree path))
  | .writeFile path content, w => some (applyTree w (writeFile w.tree path content))
  | .rename src dst, w =>
      match rename w.tree src dst with
      | .ok tree => some (.ok (), { w with
          tree, published := w.published ++ (publishes src dst).toList })
      | .error e => some (.error e, w)
  | .lstat path, w => some (get w.tree path, w)
  | .readdir path, w => some (readdir w.tree path, w)
  | .readFile path, w => some (readFile w.tree path, w)
  | .unlink path, w => some (applyTree w (unlink w.tree path))
  | .rmdir path, w => some (applyTree w (rmdir w.tree path))
  | .inspectProcessIdentity record, w => some
      (if w.life record = .alive then .same
        else if oracle.recycled then .different else .gone, w)
  | .processGroupAlive record, w =>
      some (decide (w.group record = .alive) || oracle.recycled, w)
  | .captureSelf, w => some
      (match oracle.failure with
        | some reason => .error reason
        | none => .ok p, w)
  | .randomUUID, w =>
      -- A drawn id was never drawn before.
      if w.issuedTo oracle.id = none then
        some (oracle.id, { w with
          issuedTo := Function.update w.issuedTo oracle.id (some p) })
      else none
  | .spawn claimId child, w =>
      -- The child leads its own process group, and its pid is not 0 or 1.
      if w.life child = .unborn ∧ w.group child = .unborn ∧ 1 < child.pid then
        some ((), { w with
          life := Function.update w.life child .alive
          group := Function.update w.group child .alive
          spawned := Function.update w.spawned claimId (some child) })
      else none
  | .remember handle, w => some ((), { w with
      memory := Function.update w.memory p
        { w.memory p with acquired := handle :: (w.memory p).acquired }
      granted := handle.claimId :: w.granted })
  | .forget handle, w => some ((), { w with
      memory := Function.update w.memory p
        { w.memory p with
          acquired := (w.memory p).acquired.filter fun h => h.claimId ≠ handle.claimId } })

/-- One request of a live process. -/
def exec (oracle : Oracle) (p : ClaimOwner) (o : Op Details) (w : World Details) :
    Option (Res Details o × World Details) :=
  if w.life p = .alive then
    (perform oracle p o w).map fun rw =>
      (rw.1, { rw.2 with last := Function.update rw.2.last p (some o) })
  else none

/-- The calls a process can start. -/
inductive Call (Details : Type) where
  | tryAcquireClaim (mode : ClaimMode) (startedAt : String) (details : Details)
  | settleClaim (pending : ClaimHandle Details)
  | releaseClaim (handle : ClaimHandle Details)
  | inspectClaimSet
  | readClaimSet
  | clearFreeClaimSet (startedAt : String) (details : Details)
  | markClaimChildPending (handle : ClaimHandle Details)
  | spawn (handle : ClaimHandle Details) (child : ClaimOwner)
  | setClaimChild (handle : ClaimHandle Details) (record : ClaimOwner)
  | clearClaimChild (handle : ClaimHandle Details)

def Call.Ret : Call Details → Type
  | .tryAcquireClaim .. => Except ClaimError (ClaimAttempt Details)
  | .settleClaim _ => Except ClaimError (ClaimAttempt Details)
  | .releaseClaim _ => Bool
  | .inspectClaimSet => Except ClaimError (ClaimSetState Details)
  | .readClaimSet => ClaimSurvey Details
  | .clearFreeClaimSet .. => ClaimSetClearance Details
  | .markClaimChildPending _ => Except ClaimError Unit
  | .spawn .. => Unit
  | .setClaimChild .. => Except ClaimError Unit
  | .clearClaimChild _ => Except Errno Unit

def Call.prog (rounds : Nat) : (c : Call Details) → Code Details c.Ret
  | .tryAcquireClaim mode startedAt details =>
      OwnershipClaim.tryAcquireClaim rounds mode startedAt details
  | .settleClaim pending => OwnershipClaim.settleClaim pending
  | .releaseClaim handle => OwnershipClaim.releaseClaim handle
  | .inspectClaimSet => OwnershipClaim.inspectClaimSet
  | .readClaimSet => OwnershipClaim.readClaimSet
  | .clearFreeClaimSet startedAt details =>
      OwnershipClaim.clearFreeClaimSet rounds startedAt details
  | .markClaimChildPending handle => OwnershipClaim.markClaimChildPending handle
  | .spawn handle child => ask (.spawn handle.claimId child)
  | .setClaimChild handle record => OwnershipClaim.setClaimChild handle record
  | .clearClaimChild handle => OwnershipClaim.clearClaimChild handle

/-- Whether a process holds a handle, acquired or pending. -/
def Memory.holds [DecidableEq Details] (m : Memory Details) (handle : ClaimHandle Details) :
    Bool :=
  decide (handle ∈ m.acquired) || decide (handle ∈ m.pending)

/-- A process's memory without one claim. -/
def Memory.drop (m : Memory Details) (id : ClaimId) : Memory Details :=
  { m with
    acquired := m.acquired.filter fun h => h.claimId ≠ id
    pending := m.pending.filter fun h => h.claimId ≠ id }

section

variable [DecidableEq Details]

/-- Start a call.  A process passes only handles it holds, spawns the child of a
claim only after marking it, and records only the child it spawned. -/
def invoke (p : ClaimOwner) (c : Call Details) (w : World Details) : Option (World Details) :=
  if w.life p = .alive then
    match c with
    | .tryAcquireClaim .. | .inspectClaimSet | .readClaimSet => some w
    | .settleClaim pending => if pending ∈ (w.memory p).pending then some w else none
    | .releaseClaim handle =>
        if (w.memory p).holds handle then some { w with
          memory := Function.update w.memory p ((w.memory p).drop handle.claimId)
          marked := Function.update w.marked handle.claimId false }
        else none
    | .clearFreeClaimSet .. => some { w with
        memory := Function.update w.memory p { w.memory p with clearing := true } }
    | .markClaimChildPending handle => if (w.memory p).holds handle then some w else none
    | .spawn handle _ =>
        if (w.memory p).holds handle ∧ w.marked handle.claimId = true ∧
            w.spawned handle.claimId = none then some w else none
    | .setClaimChild handle record =>
        if (w.memory p).holds handle ∧ w.spawned handle.claimId = some record then some w
        else none
    | .clearClaimChild handle =>
        if (w.memory p).holds handle then some { w with
          marked := Function.update w.marked handle.claimId false }
        else none
  else none

/-- Keep what a call reported as dead. -/
def World.bury (w : World Details) (p : ClaimOwner) (dead : List (ClaimHolder Details)) :
    World Details :=
  { w with
    memory := Function.update w.memory p
      { w.memory p with buried := dead ++ (w.memory p).buried } }

/-- The claims a call reports as dead or reaped. -/
def buries : (c : Call Details) → c.Ret → List (ClaimHolder Details)
  | .tryAcquireClaim .., .ok attempt => attempt.reaped
  | .settleClaim _, .ok attempt => attempt.reaped
  | .inspectClaimSet, .ok state => state.reaped
  | .readClaimSet, survey => survey.dead
  | _, _ => []

/-- Keep an attempt's handle. -/
def keepAttempt (p : ClaimOwner) (w : World Details) :
    Except ClaimError (ClaimAttempt Details) → World Details
  | .ok (.acquired handle _) => { w with
      memory := Function.update w.memory p
        { (w.memory p).drop handle.claimId with
          acquired := handle :: ((w.memory p).drop handle.claimId).acquired }
      granted := handle.claimId :: w.granted }
  | .ok (.waitingFor _ pending _) => { w with
      memory := Function.update w.memory p
        { (w.memory p).drop pending.claimId with
          pending := pending :: ((w.memory p).drop pending.claimId).pending } }
  | .ok (.held ..) => w
  | .error _ => w

/-- Use a call's result. -/
def use (p : ClaimOwner) (w : World Details) : (c : Call Details) → c.Ret → World Details
  | .tryAcquireClaim .., attempt => keepAttempt p w attempt
  | .settleClaim _, attempt => keepAttempt p w attempt
  | .clearFreeClaimSet .., _ => { w with
      memory := Function.update w.memory p { w.memory p with clearing := false } }
  | .markClaimChildPending handle, .ok _ => { w with
      marked := Function.update w.marked handle.claimId true
      spawned := Function.update w.spawned handle.claimId none }
  | _, _ => w

/-- Take a call's result. -/
def finish (p : ClaimOwner) (c : Call Details) (result : c.Ret) (w : World Details) :
    Option (World Details) :=
  if w.life p = .alive then some (use p (w.bury p (buries c result)) c result) else none

/-- A process dies, and its variables with it. -/
def crash (p : ClaimOwner) (w : World Details) : Option (World Details) :=
  if w.life p = .alive then some { w with
    life := Function.update w.life p .dead
    memory := Function.update w.memory p Memory.empty }
  else none

/-- The last member of a process group ends, after its leader. -/
def groupEnds (oracle : Oracle) (w : World Details) : Option (World Details) :=
  if w.life oracle.leader = .dead then
    some { w with group := Function.update w.group oracle.leader .dead }
  else none

/-- The processes of one claim set. -/
def system (Details : Type) [DecidableEq Details] (rounds : Nat) :
    System (Op Details) (Res Details) ClaimOwner (World Details) where
  Call := Call Details
  Ret := Call.Ret
  Oracle := Oracle
  prog := fun _ c => c.prog rounds
  exec := exec
  invoke := invoke
  finish := finish
  crash := crash
  env := groupEnds

end

end Stim.OwnershipClaim
