import Stim.Core.OwnershipClaim.System
import Stim.Lib.Machine

/-!
# Adopting a Metro that an earlier daemon left running

`adoptAt` and `retake` of `packages/stim-cli/src/stimd/metro/children.ts`, over
the claim set of one workspace's Metro (or tunnel).  Only exclusive claims are
taken on such a root, so the model keeps the two kinds of file that `exclusive`
holds: the claims and the child records beside them.  Any number of daemons
adopt at once, each a file request at a time, and any of them may die between
two requests.

Creating the root and removing empty directories are left out: a recursive
`mkdir` makes what another daemon just removed, and a rename onto a missing or
an empty `exclusive` both succeed.  So is the staging of a file, which no other
daemon reads.  A live process reads as `same` and a dead one as `gone`.
-/

namespace Stim.Cli.MetroAdoption

open OwnershipClaim (ClaimOwner ClaimId PUBLISH_ATTEMPTS)

/-- What a Metro's claim says about it. -/
structure ClaimDetails where
  port : Nat
  mode : String
  digest : Option String
  /-- How much of the output files the last holder had read. -/
  offsets : Option (Nat × Nat)
  deriving DecidableEq, Repr

/-- An `ID.claim` file, and the handle of the daemon that wrote it. -/
structure ClaimFile where
  claimId : ClaimId
  owner : ClaimOwner
  details : ClaimDetails
  deriving DecidableEq, Repr

/-- An `ID.child` file. -/
structure ChildFile where
  claimId : ClaimId
  record : ClaimOwner
  deriving DecidableEq, Repr

/-- `ClaimHolder`: a claim as a survey read it. -/
structure Holder where
  claimId : ClaimId
  owner : ClaimOwner
  details : ClaimDetails
  child : Option ClaimOwner
  deriving DecidableEq, Repr

/-- `ClaimSurvey` while it is made: `todo` are the claims listed and not read
yet. -/
structure ClaimSurvey where
  todo : List ClaimId
  live : List Holder
  dead : List Holder
  orphans : List ClaimId
  deriving DecidableEq, Repr

/-- `MetroChild`: what a daemon keeps of a child it adopted. -/
structure MetroChild where
  record : ClaimOwner
  claim : ClaimFile
  port : Nat
  mode : String
  digest : Option String
  offsets : Option (Nat × Nat)
  deriving DecidableEq, Repr

/-- A `retake` under way, with the holders that `adoptAt` comes to after it. -/
structure Retake where
  holder : Holder
  rest : List Holder
  deriving DecidableEq, Repr

/-- What a survey is made for: by `adoptAt` itself, at the head of a round of
`tryAcquireClaim` with `attempts` rounds after it, after its publication, or
once every round was lost. -/
inductive Purpose where
  | adopt
  | acquire (job : Retake) (attempts : Nat)
  | settle (job : Retake) (claim : ClaimFile)
  | giveUp (job : Retake)
  deriving DecidableEq, Repr

/-- The next request of a survey (`readClaim`, `claimLiveness`) or of the
removals that `inspectClaimSet` makes after it. -/
inductive Look where
  | record
  | child (claim : ClaimFile)
  | owner (holder : Holder)
  | reread (holder : Holder)
  | probe (holder : Holder) (record : ClaimOwner)
  | orphan
  | reap
  | reapChild (holder : Holder)
  | reapClaim (holder : Holder)
  deriving DecidableEq, Repr

/-- Where a daemon is in `adoptAt`. -/
inductive Pc where
  | idle
  | list (purpose : Purpose)
  | inspect (purpose : Purpose) (survey : ClaimSurvey) (look : Look)
  | retake (holders : List Holder)
  | inspectChild (job : Retake)
  | releaseRead (job : Retake)
  | releaseChild (job : Retake)
  | releaseClaim (job : Retake)
  | publish (job : Retake) (attempts : Nat) (claim : ClaimFile)
  | stageChild (job : Retake) (claim : ClaimFile)
  | recordChild (job : Retake) (claim : ClaimFile)
  | adopt (job : Retake) (claim : ClaimFile)
  deriving DecidableEq, Repr

structure World where
  claims : List ClaimFile
  childFiles : List ChildFile
  /-- Which processes, the daemons and the child among them, are alive. -/
  alive : ClaimOwner → Bool
  /-- Whether a member of the process group that a process leads is alive. -/
  group : ClaimOwner → Bool
  pc : ClaimOwner → Pc
  /-- The `children` map of each daemon, at this workspace. -/
  children : ClaimOwner → Option MetroChild
  /-- The daemons that drew a claim id: ids count their draws. -/
  issued : List ClaimOwner

/-- A predecessor died; its claim, with the child recorded, is all that is left. -/
def World.start (predecessor child : ClaimOwner) (details : ClaimDetails)
    (alive group : ClaimOwner → Bool) : World where
  claims := [⟨0, predecessor, details⟩]
  childFiles := [⟨0, child⟩]
  alive := alive
  group := group
  pc := fun _ => .idle
  children := fun _ => none
  issued := [predecessor]

/-! ## Reading the claim set -/

def World.claimAt (w : World) (id : ClaimId) : Option ClaimFile :=
  w.claims.find? fun claim => claim.claimId = id

/-- The child record beside a claim. -/
def World.childOf (w : World) (id : ClaimId) : Option ClaimOwner :=
  (w.childFiles.find? fun file => file.claimId = id).map ChildFile.record

/-- `processGroupAlive`. -/
def World.processGroupAlive (w : World) (record : ClaimOwner) : Bool :=
  decide (1 < record.pid) && w.group record

/-- Whether a recorded child still holds its claim. -/
def World.childHolds (w : World) (record : ClaimOwner) : Bool :=
  w.alive record || w.processGroupAlive record

def ClaimFile.holder (claim : ClaimFile) (child : Option ClaimOwner) : Holder :=
  ⟨claim.claimId, claim.owner, claim.details, child⟩

/-- The claims and the orphaned child records of one listing. -/
def World.listing (w : World) : ClaimSurvey where
  todo := w.claims.map ClaimFile.claimId
  live := []
  dead := []
  orphans := (w.childFiles.filter fun file => (w.claimAt file.claimId).isNone).map
    ChildFile.claimId

/-- `claimLiveness` is `live`, for a claim read with nothing moving meanwhile. -/
def World.claimLive (w : World) (claim : ClaimFile) : Bool :=
  w.alive claim.owner || (w.childOf claim.claimId).any w.childHolds

/-- The live claims that `readClaimSet` reports when nothing moves meanwhile. -/
def World.readClaimSet (w : World) : List Holder :=
  (w.claims.filter w.claimLive).map fun claim => claim.holder (w.childOf claim.claimId)

/-! ## The steps of `adoptAt` -/

/-- What one step changes outside the daemon's own place in the code. -/
inductive Write where
  | nothing
  | unlinkChild (id : ClaimId)
  | unlinkClaim (id : ClaimId)
  | draw
  | publish (claim : ClaimFile)
  | recordChild (file : ChildFile)
  | adopt (child : MetroChild)
  deriving DecidableEq, Repr

def ClaimSurvey.addLive (survey : ClaimSurvey) (holder : Holder) : ClaimSurvey :=
  { survey with live := survey.live ++ [holder] }

def ClaimSurvey.addDead (survey : ClaimSurvey) (holder : Holder) : ClaimSurvey :=
  { survey with dead := survey.dead ++ [holder] }

/-- The end of a survey: `adoptAt` goes through the live claims, and
`inspectClaimSet` goes on to the removals. -/
def surveyed (purpose : Purpose) (survey : ClaimSurvey) : Pc :=
  match purpose with
  | .adopt => .retake survey.live
  | _ => .inspect purpose survey .orphan

/-- `retake` takes over the predecessor's details but for what was consumed. -/
def Retake.claim (job : Retake) (p : ClaimOwner) (id : ClaimId) : ClaimFile :=
  ⟨id, p, { job.holder.details with offsets := none }⟩

/-- The end of `inspectClaimSet`.  A set that is held, or that every round was
lost on, ends the retake without a claim. -/
def inspected (w : World) (p : ClaimOwner) (purpose : Purpose) (survey : ClaimSurvey) :
    Write × Pc :=
  match purpose with
  | .adopt => (.nothing, .retake survey.live)
  | .acquire job attempts =>
      if survey.live = [] then
        (.draw, .publish job attempts (job.claim p w.issued.length))
      else (.nothing, .retake job.rest)
  | .settle job claim => (.nothing, .stageChild job claim)
  | .giveUp job => (.nothing, .retake job.rest)

/-- One request of a survey and of the removals after it. -/
def inspect (w : World) (p : ClaimOwner) (purpose : Purpose) (survey : ClaimSurvey) :
    Look → Write × Pc
  | .record =>
      match survey.todo with
      | [] => (.nothing, surveyed purpose survey)
      | id :: rest =>
          match w.claimAt id with
          | none => (.nothing, .inspect purpose { survey with todo := rest } .record)
          | some claim => (.nothing, .inspect purpose { survey with todo := rest } (.child claim))
  | .child claim =>
      (.nothing, .inspect purpose survey (.owner (claim.holder (w.childOf claim.claimId))))
  | .owner holder =>
      if w.alive holder.owner then (.nothing, .inspect purpose (survey.addLive holder) .record)
      else (.nothing, .inspect purpose survey (.reread holder))
  | .reread holder =>
      match w.childOf holder.claimId with
      | none => (.nothing, .inspect purpose (survey.addDead holder) .record)
      | some record => (.nothing, .inspect purpose survey (.probe holder record))
  | .probe holder record =>
      if w.childHolds record then (.nothing, .inspect purpose (survey.addLive holder) .record)
      else (.nothing, .inspect purpose (survey.addDead holder) .record)
  | .orphan =>
      match survey.orphans with
      | [] => (.nothing, .inspect purpose survey .reap)
      | id :: rest =>
          (.unlinkChild id, .inspect purpose { survey with orphans := rest } .orphan)
  | .reap =>
      match survey.dead with
      | [] => inspected w p purpose survey
      | holder :: rest =>
          match w.claimAt holder.claimId with
          | none => (.nothing, .inspect purpose { survey with dead := rest } .reap)
          | some _ => (.nothing, .inspect purpose { survey with dead := rest } (.reapChild holder))
  | .reapChild holder => (.unlinkChild holder.claimId, .inspect purpose survey (.reapClaim holder))
  | .reapClaim holder => (.unlinkClaim holder.claimId, .inspect purpose survey .reap)

/-- A round of `tryAcquireClaim` whose publication was lost. -/
def retry (job : Retake) : Nat → Pc
  | 0 => .list (.giveUp job)
  | attempts + 1 => .list (.acquire job attempts)

/-- The first request of `tryAcquireClaim`. -/
def tryAcquireClaim (job : Retake) : Pc := .list (.acquire job (PUBLISH_ATTEMPTS - 1))

/-- The child that `adoptAt` keeps. -/
def Retake.child (job : Retake) (record : ClaimOwner) (claim : ClaimFile) : MetroChild :=
  ⟨record, claim, job.holder.details.port, job.holder.details.mode, job.holder.details.digest,
    job.holder.details.offsets⟩

/-- One request of a daemon in `adoptAt`. -/
def next (w : World) (p : ClaimOwner) : Pc → Write × Pc
  | .idle => (.nothing, .idle)
  | .list purpose => (.nothing, .inspect purpose w.listing .record)
  | .inspect purpose survey look => inspect w p purpose survey look
  | .retake [] => (.nothing, .idle)
  | .retake (holder :: rest) =>
      if holder.child.isNone || w.alive holder.owner then (.nothing, .retake rest)
      else (.nothing, .inspectChild ⟨holder, rest⟩)
  | .inspectChild job =>
      if job.holder.child.any w.alive then (.nothing, .releaseRead job)
      else (.nothing, .retake job.rest)
  | .releaseRead job =>
      match w.claimAt job.holder.claimId with
      | none => (.nothing, tryAcquireClaim job)
      | some _ => (.nothing, .releaseChild job)
  | .releaseChild job => (.unlinkChild job.holder.claimId, .releaseClaim job)
  | .releaseClaim job => (.unlinkClaim job.holder.claimId, tryAcquireClaim job)
  | .publish job attempts claim =>
      -- A directory is renamed onto `exclusive` only while that is empty.
      if w.claims = [] ∧ w.childFiles = [] then (.publish claim, .list (.settle job claim))
      else (.nothing, retry job attempts)
  | .stageChild job claim => (.nothing, .recordChild job claim)
  | .recordChild job claim =>
      match job.holder.child with
      | none => (.nothing, .retake job.rest)
      | some record => (.recordChild ⟨claim.claimId, record⟩, .adopt job claim)
  | .adopt job claim =>
      match job.holder.child with
      | none => (.nothing, .retake job.rest)
      | some record => (.adopt (job.child record claim), .retake job.rest)

def World.setPc (w : World) (p : ClaimOwner) (pc : Pc) : World :=
  { w with pc := Function.update w.pc p pc }

/-- What a write does. -/
def World.apply (w : World) (p : ClaimOwner) : Write → World
  | .nothing => w
  | .unlinkChild id => { w with childFiles := w.childFiles.filter fun file => file.claimId ≠ id }
  | .unlinkClaim id => { w with claims := w.claims.filter fun claim => claim.claimId ≠ id }
  | .draw => { w with issued := w.issued ++ [p] }
  | .publish claim => { w with claims := claim :: w.claims }
  | .recordChild file =>
      { w with childFiles := file :: w.childFiles.filter fun old => old.claimId ≠ file.claimId }
  | .adopt child => { w with children := Function.update w.children p (some child) }

/-- What may happen: a daemon begins `adoptAt` or makes its next request, a
process dies, or the last member of a dead process's group ends. -/
inductive Action where
  | adoptAt (p : ClaimOwner)
  | act (p : ClaimOwner)
  | die (p : ClaimOwner)
  | groupEnds (p : ClaimOwner)
  deriving DecidableEq, Repr

/-- A daemon that supervises a child at the workspace reads no claims. -/
def World.begin (w : World) (p : ClaimOwner) : World :=
  if (w.children p).isSome then w else w.setPc p (.list .adopt)

def World.act (w : World) (p : ClaimOwner) : World :=
  (w.apply p (next w p (w.pc p)).1).setPc p (next w p (w.pc p)).2

/-- A process dies, and what it has in memory with it. -/
def World.die (w : World) (p : ClaimOwner) : World :=
  { w with
    alive := Function.update w.alive p false
    pc := Function.update w.pc p .idle
    children := Function.update w.children p none }

def step (w : World) : Action → Option World
  | .adoptAt p => if w.alive p ∧ w.pc p = .idle then some (w.begin p) else none
  | .act p => if w.alive p ∧ w.pc p ≠ .idle then some (w.act p) else none
  | .die p => if w.alive p then some (w.die p) else none
  | .groupEnds p =>
      if w.alive p then none
      else some { w with group := Function.update w.group p false }

end Stim.Cli.MetroAdoption
