import Stim.Cli.DeviceCapacity
import Stim.Lib.Machine

/-!
# Device boot admission

Any number of runs of `withDeviceBootAdmission` with fixed caps.  A `count` transaction
runs under the admission lock in several steps; outside it other runs decide from a
shared listing, boot, rekey, end and die, and devices stop.  A fresh inventory is true
at the moment it is read.
-/

namespace Stim.Cli

abbrev Ticket := WaitTicket DeviceKey

/-- Where a run stands. -/
inductive Phase where
  /-- At the top of the loop, before `reuse`. -/
  | looping
  /-- Waiting for the admission lock. -/
  | wanting
  | locked
  /-- Under the lock, with the queue `round` read. -/
  | rounded (waiters : List Ticket)
  /-- Under the lock, with a fresh inventory. -/
  | counted (waiters : List Ticket) (read : InventoryRead)
  /-- Under the lock, with a boot marker; the ticket is not released yet. -/
  | admitted
  | booting
  | ended

structure Run where
  device : DeviceKey
  /-- `noWait || waitMs === 0`. -/
  noWait : Bool
  ticket : Option Ticket
  phase : Phase

/-- A live boot marker.  `checked` says that its boot passed the checks of `decide`, and
`stale` that `rekey` has taken the marker that replaces it. -/
structure Marker where
  run : Nat
  device : DeviceKey
  checked : Bool
  stale : Bool
  deriving DecidableEq

structure World where
  live : Finset DeviceKey
  markers : List Marker
  tickets : List Ticket
  lock : Option Nat
  /-- Admission transactions so far. -/
  transactions : Nat
  runs : Nat → Option Run

namespace World

/-- Nothing is live and no run has begun. -/
def initial : World := ⟨∅, [], [], none, 0, fun _ => none⟩

def set (w : World) (r : Nat) (run : Run) : World :=
  { w with runs := Function.update w.runs r (some run) }

/-- The run is over: its claims and its lock are gone. -/
def leave (w : World) (r : Nat) (run : Run) : World :=
  { w with
    markers := w.markers.filter fun m => m.run ≠ r
    tickets := w.tickets.filter fun t => t.run ≠ r
    lock := if w.lock = some r then none else w.lock }.set r
      { run with ticket := none, phase := .ended }

/-- The random and measured values of a call of `decide`. -/
structure Env where
  claimId : String
  startedAt : String
  memory : Option Memory
  /-- The wait has reached its ceiling or `waitMs`. -/
  overdue : Bool

/-- `wait`, within a transaction: the run takes a ticket if it has none. -/
def wait (w : World) (r : Nat) (run : Run) (waiters : List Ticket) (env : Env) :
    Option World :=
  if run.noWait || env.overdue then some (w.leave r run)
  else match run.ticket with
    | some _ => some ({ w with lock := none }.set r { run with phase := .looping })
    | none =>
        -- claim ids are random: no live claim has this one
        if w.tickets.any fun t => t.claimId == env.claimId then none
        else
          let ticket : Ticket := ⟨env.claimId, env.startedAt, nextSequence waiters, run.device, r,
            w.transactions⟩
          some ({ w with tickets := w.tickets ++ [ticket], lock := none }.set r
            { run with ticket := some ticket, phase := .looping })

/-- `shared`: a decision from the last listing is only taken when someone is ahead. -/
def sharedHold (caps : Caps) (run : Run) (waiters : List Ticket) (env : Env)
    (read : Option InventoryRead) : Option Hold :=
  let aheadOf := ahead waiters run.ticket
  if aheadOf.isEmpty then none
  else read.bind (decideBoot caps run.device aheadOf env.memory)

/-- An inventory that is true now; a count that failed says nothing. -/
def Truthful (w : World) : InventoryRead → Prop
  | .ok inventory =>
      liveKeys inventory = w.live ∧ inventory.booting.Perm (w.markers.map Marker.device)
  | .error _ => True

instance (w : World) (result : InventoryRead) : Decidable (w.Truthful result) :=
  match result with
  | .ok _ => inferInstanceAs (Decidable (_ ∧ _))
  | .error _ => inferInstanceAs (Decidable True)

/-- `reuse`: only a run with a ticket decides outside the lock, and it takes no claim. -/
def reuse (caps : Caps) (w : World) (r : Nat) (run : Run) (listing : List Ticket) (env : Env)
    (read : Option InventoryRead) : Option World :=
  match run.phase, run.ticket with
  | .looping, none => some (w.set r { run with phase := .wanting })
  | .looping, some _ =>
      match sharedHold caps run (liveWaiters listing) env read with
      | none => some (w.set r { run with phase := .wanting })
      | some _ => if run.noWait || env.overdue then some (w.leave r run) else some w
  | _, _ => none

/-- The admission lock is taken. -/
def acquire (w : World) (r : Nat) (run : Run) : Option World :=
  match run.phase, w.lock with
  | .wanting, none => some ({ w with lock := some r, transactions := w.transactions + 1 }.set r
      { run with phase := .locked })
  | _, _ => none

/-- `round` reads the queue, in whatever order the directory lists it. -/
def round (w : World) (r : Nat) (run : Run) (listing : List Ticket) : Option World :=
  match run.phase with
  | .locked =>
      if listing.Perm w.tickets then
        some (w.set r { run with phase := .rounded (liveWaiters listing) })
      else none
  | _ => none

/-- `count` decides from the shared listing first, and it can only wait on it. -/
def shared (caps : Caps) (w : World) (r : Nat) (run : Run) (env : Env)
    (read : Option InventoryRead) : Option World :=
  match run.phase with
  | .rounded waiters =>
      match sharedHold caps run waiters env read with
      | some _ => w.wait r run waiters env
      | none => some w
  | _ => none

/-- The fresh reading. -/
def read (w : World) (r : Nat) (run : Run) (result : InventoryRead) : Option World :=
  match run.phase with
  | .rounded waiters =>
      if w.Truthful result then some (w.set r { run with phase := .counted waiters result })
      else none
  | _ => none

/-- `decide(read) ?? admit()`. -/
def decide (caps : Caps) (w : World) (r : Nat) (run : Run) (env : Env) : Option World :=
  match run.phase with
  | .counted waiters result =>
      match decideBoot caps run.device (ahead waiters run.ticket) env.memory result with
      | some _ => w.wait r run waiters env
      | none =>
          let checked := match result with
            | .ok inventory => !alreadyUp run.device inventory
            | .error _ => false
          let marker : Marker := ⟨r, run.device, checked, false⟩
          some ({ w with markers := w.markers ++ [marker] }.set r { run with phase := .admitted })
  | _ => none

/-- The end of `admit`: the ticket is released, and then the lock. -/
def admitRun (w : World) (r : Nat) (run : Run) : Option World :=
  match run.phase with
  | .admitted => some ({ w with
      tickets := w.tickets.filter fun t => t.run ≠ r
      lock := none }.set r { run with ticket := none, phase := .booting })
  | _ => none

/-- A boot makes its device live. -/
def boot (w : World) (run : Run) : Option World :=
  match run.phase, run.device.name with
  | .booting, .created _ => some { w with live := insert run.device w.live }
  | _, _ => none

/-- The markers once run `r` has taken one for `device` and not yet released its old one. -/
def rekeyed (markers : List Marker) (r : Nat) (device : DeviceKey) : List Marker :=
  (markers.map fun m => if m.run = r then { m with stale := true } else m) ++
    (markers.filter fun m => m.run = r && !m.stale).map fun m => { m with device }

/-- `rekey` takes a marker for the device it created. -/
def rekey (w : World) (r : Nat) (run : Run) (key : String) : Option World :=
  match run.phase, run.device.name with
  | .booting, .uncreated _ =>
      let device : DeviceKey := { run.device with name := .created key }
      some ({ w with markers := rekeyed w.markers r device }.set r { run with device })
  | _, _ => none

/-- The end of `rekey`: the replaced marker is released. -/
def release (w : World) (r : Nat) : World :=
  { w with markers := w.markers.filter fun m => !(m.run = r && m.stale) }

end World

/-- What can happen next. -/
inductive Action where
  | start (r : Nat) (platform : CappedPlatform) (key : Option String) (noWait : Bool)
  | reuse (r : Nat) (listing : List Ticket) (env : World.Env) (read : Option InventoryRead)
  | acquire (r : Nat)
  | round (r : Nat) (listing : List Ticket)
  | shared (r : Nat) (env : World.Env) (read : Option InventoryRead)
  | read (r : Nat) (result : InventoryRead)
  | decide (r : Nat) (env : World.Env)
  | admitRun (r : Nat)
  | boot (r : Nat)
  | rekey (r : Nat) (key : String)
  | release (r : Nat)
  /-- The run ends, refuses or dies. -/
  | leave (r : Nat)
  | stop (device : DeviceKey)

def World.begin (w : World) (r : Nat) (platform : CappedPlatform) (key : Option String)
    (noWait : Bool) : Option World :=
  match w.runs r with
  | some _ => none
  | none => some (w.set r
      ⟨⟨platform, (key.map .created).getD (.uncreated r)⟩, noWait, none, .looping⟩)

def step (caps : Caps) (w : World) : Action → Option World
  | .start r platform key noWait => w.begin r platform key noWait
  | .reuse r listing env read => (w.runs r).bind fun run => w.reuse caps r run listing env read
  | .acquire r => (w.runs r).bind fun run => w.acquire r run
  | .round r listing => (w.runs r).bind fun run => w.round r run listing
  | .shared r env read => (w.runs r).bind fun run => w.shared caps r run env read
  | .read r result => (w.runs r).bind fun run => w.read r run result
  | .decide r env => (w.runs r).bind fun run => w.decide caps r run env
  | .admitRun r => (w.runs r).bind fun run => w.admitRun r run
  | .boot r => (w.runs r).bind fun run => w.boot run
  | .rekey r key => (w.runs r).bind fun run => w.rekey r run key
  | .release r => some (w.release r)
  | .leave r => (w.runs r).map fun run => w.leave r run
  | .stop device => some { w with live := w.live.erase device }

end Stim.Cli
