import Stim.Lib.Machine
import Stim.Lib.OrderedMap

/-!
# Switching the engine under running daemons

`followEngine` of `packages/stim-cli/src/stimd/engine-follow.ts` and the flips of
`packages/stim-cli/src/engine-store/promote.ts`.  Any number of stimds of one build and
any number of promoters run at once; every reading, claim update and lock is a step of
its own.  A lock is a mutex that a dead holder frees.  The process that writes
`current.json` for a stimd is a child of it, and holds no lock itself.
-/

namespace Stim.Cli

/-- Who holds a lock of the store. -/
inductive LockHolder where
  /-- The probe of an `admit`. -/
  | probe (k : Nat)
  | stimd (i : Nat)
  | promoter (j : Nat)
  deriving DecidableEq

/-- Where the `flip` of a stimd stands. -/
inductive FlipStage where
  | idle
  /-- Every claim had drained when it looked. -/
  | wanting (staged : String)
  /-- It holds the promotion lock. -/
  | locked (staged : String)
  /-- And the flip lock. -/
  | flipLocked (staged : String)
  /-- Every claim had drained under the locks, and `engine-select --flip` was started. -/
  | running (staged : String)
  deriving DecidableEq

/-- An `engine-select --flip` process, before and after it has read the records. -/
structure FlipChild where
  target : String
  checked : Bool
  deriving DecidableEq

/-- Where an `admit` stands. -/
inductive AdmitPhase where
  | probing
  | probed
  /-- The probe is released, or was given up at the deadline. -/
  | reading
  /-- It returned the build the engine switched to, or null. -/
  | returned (switched : Option String)
  deriving DecidableEq

structure Admit where
  stimd : Nat
  /-- The stimd has its claim, and has not recorded `drained: true` since. -/
  live : Bool
  phase : AdmitPhase
  deriving DecidableEq

/-- Where a `promote` that flips without a drain stands. -/
inductive PromoteStage where
  | begun
  /-- No claim was held when it looked. -/
  | flipping
  /-- It holds the flip lock. -/
  | flipLocked
  | done
  deriving DecidableEq

structure Promoter where
  build : String
  stage : PromoteStage
  deriving DecidableEq

structure SwitchWorld where
  /-- The build `current.json` names. -/
  current : String
  staged : Option String
  promotionLock : Option LockHolder
  flipLock : Option LockHolder
  /-- The live claims of the build's stimds: whether each records `drained`. -/
  claims : OrderedMap Nat Bool
  flips : Nat → FlipStage
  children : Nat → Option FlipChild
  admits : Nat → Option Admit
  promoters : Nat → Option Promoter

namespace SwitchWorld

/-- `current.json` names the build the stimds run, and no process has begun. -/
def initial (build : String) : SwitchWorld :=
  ⟨build, none, none, none, .empty, fun _ => .idle, fun _ => none, fun _ => none, fun _ => none⟩

/-- `allDrained` of the build's claims. -/
def allDrained (w : SwitchWorld) : Bool := w.claims.values.all id

/-- `claimsHeld`; `others` says whether another build's claim is. -/
def claimsHeld (w : SwitchWorld) (others : Bool) : Bool := others || !w.claims.entries.isEmpty

/-- `record`: the claim's details are updated, if it has one. -/
def record (w : SwitchWorld) (i : Nat) (drained : Bool) : SwitchWorld :=
  if (w.claims.get i).isSome then { w with claims := w.claims.set i drained } else w

/-- No admission of the stimd is good any more. -/
def void (w : SwitchWorld) (i : Nat) : SwitchWorld :=
  { w with admits := fun k => (w.admits k).map fun entry =>
      if entry.stimd = i then { entry with live := false } else entry }

def setFlip (w : SwitchWorld) (i : Nat) (stage : FlipStage) : SwitchWorld :=
  { w with flips := Function.update w.flips i stage }

def setAdmit (w : SwitchWorld) (k : Nat) (entry : Admit) : SwitchWorld :=
  { w with admits := Function.update w.admits k (some entry) }

def setPromoter (w : SwitchWorld) (j : Nat) (promoter : Promoter) : SwitchWorld :=
  { w with promoters := Function.update w.promoters j (some promoter) }

/-- A process lets go of the locks it holds. -/
def unlock (w : SwitchWorld) (holder : LockHolder) : SwitchWorld :=
  { w with
    promotionLock := if w.promotionLock = some holder then none else w.promotionLock
    flipLock := if w.flipLock = some holder then none else w.flipLock }

end SwitchWorld

inductive SwitchAction where
  /-- `followEngine` takes the stimd's claim. -/
  | start (i : Nat)
  | record (i : Nat) (pinned : Bool)
  | release (i : Nat)
  | die (i : Nat)
  /-- `admit` records the work as pinned. -/
  | admitOp (k i : Nat)
  /-- It finds the flip lock free. -/
  | probe (k : Nat)
  | unprobe (k : Nat)
  /-- It has waited `ADMIT_WAIT_MS`. -/
  | deadline (k : Nat)
  /-- It reads `current.json` and returns. -/
  | answer (k : Nat)
  /-- The first look of a stimd's `flip`. -/
  | look (i : Nat)
  | lock (i : Nat)
  | flipLock (i : Nat)
  /-- The second look, under both locks. -/
  | recheck (i : Nat)
  | childReads (i : Nat)
  | childWrites (i : Nat)
  /-- The child was refused, failed or was killed. -/
  | childEnds (i : Nat)
  /-- The child has ended, or the stimd went no further; it lets go of the locks. -/
  | finish (i : Nat)
  /-- `promote` takes the promotion lock. -/
  | promote (j : Nat) (build : String)
  | readClaims (j : Nat) (others : Bool)
  | takeFlipLock (j : Nat)
  | flipPointer (j : Nat)
  /-- `promote` returns, fails or dies. -/
  | leave (j : Nat)
  /-- The process that holds the promotion lock for a handed over `promote` dies. -/
  | orphan (j : Nat)

open SwitchWorld in
/-- What a step does, for stimds that run `build`. -/
def switchStep (build : String) (w : SwitchWorld) : SwitchAction → Option SwitchWorld
  | .start i =>
      if (w.claims.get i).isSome ∨ w.flips i ≠ .idle ∨ (w.children i).isSome then none
      else some { w with claims := w.claims.set i true }
  | .record i pinned =>
      some (if pinned then w.record i false else (w.record i true).void i)
  | .release i => some { w.void i with claims := w.claims.delete i }
  | .die i => some (({ w.void i with claims := w.claims.delete i }.setFlip i .idle).unlock (.stimd i))
  | .admitOp k i =>
      if (w.admits k).isSome then none
      else some ((w.record i false).setAdmit k ⟨i, (w.claims.get i).isSome, .probing⟩)
  | .probe k => (w.admits k).bind fun entry =>
      if entry.phase = .probing ∧ w.flipLock = none then
        some ({ w with flipLock := some (.probe k) }.setAdmit k { entry with phase := .probed })
      else none
  | .unprobe k => (w.admits k).bind fun entry =>
      if entry.phase = .probed then
        some ((w.unlock (.probe k)).setAdmit k { entry with phase := .reading })
      else none
  | .deadline k => (w.admits k).bind fun entry =>
      if entry.phase = .probing then some (w.setAdmit k { entry with phase := .reading }) else none
  | .answer k => (w.admits k).bind fun entry =>
      if entry.phase = .reading then
        some (w.setAdmit k { entry with
          phase := .returned (if w.current = build then none else some w.current) })
      else none
  | .look i => match w.flips i, w.staged with
      | .idle, some staged =>
          if w.current = build ∧ staged ≠ build ∧ w.allDrained = true then
            some (w.setFlip i (.wanting staged))
          else none
      | _, _ => none
  | .lock i => match w.flips i, w.promotionLock with
      | .wanting staged, none =>
          some ({ w with promotionLock := some (.stimd i) }.setFlip i (.locked staged))
      | _, _ => none
  | .flipLock i => match w.flips i, w.flipLock with
      | .locked staged, none =>
          some ({ w with flipLock := some (.stimd i) }.setFlip i (.flipLocked staged))
      | _, _ => none
  | .recheck i => match w.flips i with
      | .flipLocked staged =>
          if w.allDrained = true ∧ w.staged = some staged ∧ (w.children i).isNone then
            some ({ w with
              children := Function.update w.children i (some ⟨staged, false⟩) }.setFlip i
                (.running staged))
          else none
      | _ => none
  | .childReads i => (w.children i).bind fun child =>
      let next := if w.staged = some child.target then some { child with checked := true } else none
      if child.checked then none
      else some { w with children := Function.update w.children i next }
  | .childWrites i => (w.children i).bind fun child =>
      if child.checked then some { w with
        current := child.target
        staged := none
        children := Function.update w.children i none }
      else none
  | .childEnds i => some { w with children := Function.update w.children i none }
  | .finish i =>
      if (w.children i).isSome then none
      else some ((w.setFlip i .idle).unlock (.stimd i))
  | .promote j target =>
      if (w.promoters j).isSome ∨ w.promotionLock ≠ none then none
      else some ({ w with promotionLock := some (.promoter j) }.setPromoter j ⟨target, .begun⟩)
  | .readClaims j others => (w.promoters j).bind fun promoter =>
      if promoter.stage = .begun then
        if w.claimsHeld others then
          some ({ w with staged := some promoter.build }.setPromoter j
            { promoter with stage := .done })
        else some (w.setPromoter j { promoter with stage := .flipping })
      else none
  | .takeFlipLock j => (w.promoters j).bind fun promoter =>
      if promoter.stage = .flipping ∧ w.flipLock = none then
        some ({ w with flipLock := some (.promoter j) }.setPromoter j
          { promoter with stage := .flipLocked })
      else none
  | .flipPointer j => (w.promoters j).bind fun promoter =>
      if promoter.stage = .flipLocked then
        some ({ w with current := promoter.build, staged := none }.setPromoter j
          { promoter with stage := .done })
      else none
  | .leave j => (w.promoters j).bind fun promoter =>
      some ((w.unlock (.promoter j)).setPromoter j { promoter with stage := .done })
  | .orphan j =>
      if w.promotionLock = some (.promoter j) then some { w with promotionLock := none } else none

end Stim.Cli
