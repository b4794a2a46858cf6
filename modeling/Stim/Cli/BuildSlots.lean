import Stim.Cli.WaitQueue
import Stim.Lib.Machine
import Mathlib.Data.List.Perm.Subperm

/-!
# Build slots

`packages/stim-cli/src/engine/build-slots.ts`, with `slotTurn` of
`packages/stim-cli/src/policy/admission.ts` and `tryAcquireBuildSlotClaim` of
`packages/core/state/build-capacity.ts`.  A run reads the queue, then the slots, then
tries the slots one by one; each of these is a step of its own, and other runs step in
between.  The cap `max` is the same for every run.
-/

namespace Stim.Cli

/-- A build slot as its claim reads. -/
structure SlotReading where
  index : Option Nat
  alive : Bool
  unresolved : Bool
  deriving DecidableEq

/-- The slots below `max` that are held, or whose holder cannot be verified. -/
def busySlots (slots : List SlotReading) (max : Nat) : List SlotReading :=
  slots.filter fun slot => slot.index.any (· < max) && (slot.alive || slot.unresolved)

structure SlotTurn where
  claim : Bool
  unverified : List SlotReading

/-- The turn of the waiter at 1-based queue `position`. -/
def slotTurn (position max : Nat) (busy : List SlotReading) : SlotTurn where
  claim := decide (position ≤ max - (busy.filter SlotReading.alive).length)
  unverified := busy.filter SlotReading.unresolved

/-- A waiter's 1-based position, or the position it would take on joining. -/
def queuePosition {D : Type} (waiters : List (WaitTicket D)) (ticket : Option (WaitTicket D)) :
    Nat :=
  match ticket.bind fun ticket =>
      waiters.findIdx? fun holder => holder.claimId == ticket.claimId with
  | none => waiters.length + 1
  | some index => index + 1

theorem queuePosition_eq {D : Type} (waiters : List (WaitTicket D))
    (ticket : Option (WaitTicket D)) :
    queuePosition waiters ticket = (ahead waiters ticket).length + 1 := by
  cases ticket with
  | none => rfl
  | some ticket =>
      rw [queuePosition, ahead, Option.bind_some]
      cases hFind : waiters.findIdx? fun holder => holder.claimId == ticket.claimId with
      | none => rfl
      | some mine =>
          have hLt := (List.findIdx?_eq_some_iff_getElem.mp hFind).1
          simp [List.length_take, Nat.le_of_lt hLt]

/-- A build's ticket.  Its `transaction` is the time of the queue reading it was numbered
by. -/
abbrev BuildTicket := WaitTicket Unit

/-- Where a round of `acquireBuildSlot` stands. -/
inductive SlotStage where
  /-- The head of the loop. -/
  | round
  /-- The queue is read, the slots are not. -/
  | listing (waiters : List BuildTicket)
  /-- It is the run's turn, and the slots before `index` were held. -/
  | claiming (waiters : List BuildTicket) (position index : Nat)
  /-- There was no slot this round. -/
  | missed (waiters : List BuildTicket)
  | holding (index : Nat)
  | ended
  deriving DecidableEq

/-- The queue a stage has read. -/
def SlotStage.queue : SlotStage → Option (List BuildTicket)
  | .listing waiters => some waiters
  | .claiming waiters _ _ => some waiters
  | .missed waiters => some waiters
  | _ => none

structure SlotRun where
  ticket : Option BuildTicket
  /-- When it last read the queue. -/
  readAt : Nat
  stage : SlotStage
  deriving DecidableEq

/-- The reading a waiter's age is told by: the one that numbered its ticket, or its last. -/
def SlotRun.since (run : SlotRun) : Nat :=
  match run.ticket with
  | none => run.readAt
  | some ticket => ticket.transaction

structure SlotWorld where
  /-- Counts the steps. -/
  clock : Nat
  tickets : List BuildTicket
  /-- When each run's ticket was published. -/
  publishedAt : Nat → Nat
  /-- Which run holds a slot. -/
  held : Nat → Option Nat
  runs : Nat → Option SlotRun

namespace SlotWorld

def initial : SlotWorld := ⟨0, [], fun _ => 0, fun _ => none, fun _ => none⟩

def set (w : SlotWorld) (r : Nat) (run : SlotRun) : SlotWorld :=
  { w with runs := Function.update w.runs r (some run) }

/-- Every holder can be verified, so a slot is alive or free. -/
def listBuildSlots (w : SlotWorld) (max : Nat) : List SlotReading :=
  (List.range max).map fun index => ⟨some index, (w.held index).isSome, false⟩

def freeSlots (w : SlotWorld) (max : Nat) : List Nat :=
  (List.range max).filter fun index => (w.held index).isNone

/-- The live waiters older than a run. -/
def olderWaiters (w : SlotWorld) (run : SlotRun) : List BuildTicket :=
  w.tickets.filter fun ticket => decide (w.publishedAt ticket.run < run.since)

/-- The run's ticket is released. -/
def release (w : SlotWorld) (r : Nat) : SlotWorld :=
  { w with tickets := w.tickets.filter fun ticket => decide (ticket.run ≠ r) }

/-- The run's slot is released. -/
def vacate (w : SlotWorld) (r : Nat) : SlotWorld :=
  { w with held := fun index => if w.held index = some r then none else w.held index }

/-- The run reads the slots and takes its turn. -/
def turn (w : SlotWorld) (max r : Nat) (run : SlotRun) : Option SlotWorld :=
  match run.stage with
  | .listing waiters =>
      let position := queuePosition waiters run.ticket
      if (slotTurn position max (busySlots (w.listBuildSlots max) max)).claim then
        some (w.set r { run with stage := .claiming waiters position 0 })
      else some (w.set r { run with stage := .missed waiters })
  | _ => none

/-- One claim attempt of `tryAcquireBuildSlotClaim`. -/
def attempt (w : SlotWorld) (max r : Nat) (run : SlotRun) : Option SlotWorld :=
  match run.stage with
  | .claiming waiters position index =>
      if index < max then
        match w.held index with
        | none => some ({ w with held := Function.update w.held index (some r) }.set r
            { run with stage := .holding index })
        | some _ => some (w.set r { run with stage := .claiming waiters position (index + 1) })
      else some (w.set r { run with stage := .missed waiters })
  | _ => none

/-- `takeWaitTicket`.  Claim ids are random: no live claim has this one. -/
def join (w : SlotWorld) (r : Nat) (run : SlotRun) (claimId startedAt : String) :
    Option SlotWorld :=
  match run.stage, run.ticket with
  | .missed waiters, none =>
      if w.tickets.any fun ticket => ticket.claimId == claimId then none
      else
        let ticket : BuildTicket := ⟨claimId, startedAt, nextSequence waiters, (), r, run.readAt⟩
        some ({ w with
          tickets := w.tickets ++ [ticket]
          publishedAt := Function.update w.publishedAt r w.clock }.set r
            { run with ticket := some ticket, stage := .round })
  | _, _ => none

end SlotWorld

inductive SlotAction where
  | start (r : Nat)
  /-- `liveWaiters`, in whatever order the directory lists the claims. -/
  | readQueue (r : Nat) (listing : List BuildTicket)
  | readSlots (r : Nat)
  | attempt (r : Nat)
  | join (r : Nat) (claimId startedAt : String)
  /-- A run with a ticket sleeps until its next round. -/
  | sleep (r : Nat)
  /-- The run is cancelled or refused; its ticket is released. -/
  | leave (r : Nat)
  /-- The `finally` of a run that has taken a slot. -/
  | releaseTicket (r : Nat)
  | releaseSlot (r : Nat)
  | die (r : Nat)

open SlotWorld in
/-- What an action of one run does. -/
def slotAct (max : Nat) (w : SlotWorld) : SlotAction → Option SlotWorld
  | .start r => match w.runs r with
      | none => some (w.set r ⟨none, w.clock, .round⟩)
      | some _ => none
  | .readQueue r listing => (w.runs r).bind fun run =>
      if run.stage = .round ∧ listing.Perm w.tickets then
        some (w.set r { run with readAt := w.clock, stage := .listing (liveWaiters listing) })
      else none
  | .readSlots r => (w.runs r).bind fun run => w.turn max r run
  | .attempt r => (w.runs r).bind fun run => w.attempt max r run
  | .join r claimId startedAt => (w.runs r).bind fun run => w.join r run claimId startedAt
  | .sleep r => (w.runs r).bind fun run => match run.stage, run.ticket with
      | .missed _, some _ => some (w.set r { run with stage := .round })
      | _, _ => none
  | .leave r => (w.runs r).bind fun run => match run.stage with
      | .holding _ => none
      | _ => some ((w.release r).set r { run with ticket := none, stage := .ended })
  | .releaseTicket r => (w.runs r).bind fun run => match run.stage with
      | .holding _ => some ((w.release r).set r { run with ticket := none })
      | _ => none
  | .releaseSlot r => (w.runs r).bind fun run => match run.stage, run.ticket with
      | .holding _, none => some ((w.vacate r).set r { run with stage := .ended })
      | _, _ => none
  | .die r => (w.runs r).bind fun run =>
      some (((w.release r).vacate r).set r { run with ticket := none, stage := .ended })

def slotStep (max : Nat) (w : SlotWorld) (a : SlotAction) : Option SlotWorld :=
  (slotAct max w a).map fun w => { w with clock := w.clock + 1 }

end Stim.Cli
