import Stim.Lib.Machine

/-!
# The connections of an offloaded build

`offloadBuild` of `packages/stim-cli/src/offload/client.ts`, with `resumeJob`, `probeMachine` and
`closeOffload`, as far as it opens, stores and closes connections.  A step is what a call does
between two suspension points, what a reattachment does between two of its own, the end of a
connection, an outcome that a machine reports, the job's timer or the cancellation.

What the machines, the configuration and the checks of a result answer is data of the step.
Progress events of the machine name their job.  Neither `probeMachine` nor `pickOffer` checks that
an offer has the fields that they read: one that lacks them makes them throw.
-/

namespace Stim.Cli.OffloadBuild

abbrev Conn := Nat

/-- One call of `offloadBuild`, the calls it makes of itself included. -/
abbrev CallId := Nat

def MAX_WORKER_RESTARTS : Nat := 2

/-! ## Calls -/

/-- An event at a connection's progress listener. -/
inductive Event where
  /-- the machine's outcome of the build -/
  | built (ok : Bool)
  /-- the connection ended with a close frame -/
  | closed
  /-- the connection ended without one -/
  | dropped
  deriving DecidableEq, Repr

/-- What `resumeJob` resolves. -/
inductive Resumed where
  | connection (c : Conn) (outcome : Option Bool)
  | lost
  | failure
  deriving DecidableEq, Repr

/-- Where a `reattach` waits. -/
inductive ReattachStage where
  | resolving
  | connecting
  | attaching (c : Conn)
  | handing (c : Conn)
  | pausing
  | resumed (result : Resumed)
  deriving DecidableEq, Repr

/-- A `reattach` under way, with the events it has collected. -/
structure Reattach where
  stage : ReattachStage
  early : List Event
  deriving DecidableEq, Repr

/-- The variables of a call that its closures share.  `resuming` is that a `reattach` is under
way. -/
structure Shared where
  job : Bool
  jobLost : Bool
  early : List Event
  /-- `ok` of the outcome the call was settled with -/
  settled : Option Bool
  reattach : Option Reattach
  deriving DecidableEq, Repr

def Shared.new : Shared := ⟨false, false, [], none, none⟩

/-- Why the call starts the build again. -/
inductive Retry where
  | lost
  | cachedMiss
  deriving DecidableEq, Repr

/-- Where `probeMachine` waits. -/
inductive ProbeStage where
  | resolving
  | connecting
  | starting (c : Conn)
  | offering (c : Conn)
  deriving DecidableEq, Repr

inductive Probe where
  | offer (c : Conn)
  | failure (refused : Bool)
  deriving DecidableEq, Repr

inductive Result where
  | ok
  | failed
  | thrown
  deriving DecidableEq, Repr

/-- Where a call waits. -/
inductive Pc where
  | entry
  | loop
  | peer
  | inputs
  | sync
  | start
  | outcome
  | fetch
  | recheck
  | probing (retry : Retry) (stage : ProbeStage)
  | probed (retry : Retry) (probe : Probe)
  | delaying (retry : Retry)
  | reprobed (retry : Retry)
  /-- in the call of itself, or with what that returned -/
  | nested (result : Option Result)
  deriving DecidableEq, Repr

structure Frame where
  id : CallId
  restarts : Nat
  cacheHit : Bool
  keepStaging : Bool
  /-- in the `catch` block -/
  catching : Bool
  pc : Pc
  deriving DecidableEq, Repr

inductive Listener where
  | call (id : CallId)
  | reattach (id : CallId)
  deriving DecidableEq, Repr

structure World where
  isOpen : Conn → Bool
  listener : Conn → Option Listener
  nextConn : Conn
  /-- `choice` -/
  connection : Conn
  runnersUp : List Conn
  cacheOnly : Bool
  swiftpm : Bool
  cancelled : Bool
  /-- the staging directory exists -/
  staging : Bool
  shared : CallId → Shared
  nextCall : CallId
  /-- the calls, the innermost first -/
  stack : List Frame
  result : Option Result

/-- What a step finds: how a promise settled, and what the checks after it say. -/
inductive Reply where
  | raises
  | checked (valid : Bool)
  | usable (yes : Bool)
  | artifact (hit : Bool)
  | inputs
  | synced (complete enabled : Bool)
  | job
  | refused (badRequest : Bool)
  | outcome (accepted : Bool)
  | fetched (complete : Bool)
  | failure (refused : Bool)
  | success (supported : Bool)
  | probed (again fits : Bool)
  | resumed
  deriving DecidableEq, Repr

/-- How a request of `resumeJob` fails. -/
inductive AttachError where
  /-- `closed` or `timeout` -/
  | connection
  /-- `BUILD_JOB_UNKNOWN` -/
  | unknownJob
  | other
  deriving DecidableEq, Repr

/-- What a step of `reattach` finds; `late` is that the window has passed. -/
inductive ReattachReply where
  | resolved
  | opened (supported spliced : Bool)
  | attached
  | handed (outcome : Option Bool)
  | noConnection (refused late : Bool)
  | error (error : AttachError) (late : Bool)
  | resumed
  deriving DecidableEq, Repr

namespace World

/-! ## Connections -/

/-- `close` or `drop` of every connection of the list. -/
def closeAll (w : World) (cs : List Conn) : World :=
  { w with
    isOpen := fun c => w.isOpen c && !cs.contains c
    listener := fun c => if c ∈ cs then none else w.listener c }

/-- `closeOffload` -/
def closeOffload (w : World) : World :=
  { w.closeAll (w.connection :: w.runnersUp) with runnersUp := [] }

def openConn (w : World) : World :=
  { w with isOpen := Function.update w.isOpen w.nextConn true, nextConn := w.nextConn + 1 }

def listen (w : World) (c : Conn) (listener : Option Listener) : World :=
  { w with listener := Function.update w.listener c listener }

def setShared (w : World) (k : CallId) (shared : Shared) : World :=
  { w with shared := Function.update w.shared k shared }

/-! ## Progress -/

def settle (w : World) (k : CallId) (ok : Bool) : World :=
  w.setShared k { w.shared k with settled := (w.shared k).settled.or (some ok) }

/-- The start of `reattach`. -/
def reattach (w : World) (k : CallId) : World :=
  if (w.shared k).reattach.isSome || (w.shared k).settled.isSome then w
  else w.setShared k { w.shared k with reattach := some ⟨.resolving, []⟩ }

/-- `handle` -/
def handle (w : World) (k : CallId) : Event → World
  | .built ok => if (w.shared k).job then w.settle k ok else w
  | .closed => w.settle k false
  | .dropped => if (w.shared k).job then w.reattach k else w.settle k false

def handleAll (w : World) (k : CallId) (events : List Event) : World :=
  events.foldl (fun w event => w.handle k event) w

def deliver (w : World) (c : Conn) (event : Event) : World :=
  match w.listener c with
  | none => w
  | some (.call k) =>
      if (w.shared k).job then w.handle k event
      else w.setShared k { w.shared k with early := (w.shared k).early ++ [event] }
  | some (.reattach k) =>
      match (w.shared k).reattach with
      | none => w
      | some task =>
          w.setShared k { w.shared k with
            reattach := some { task with early := task.early ++ [event] } }

def shut (w : World) (c : Conn) : World :=
  { w with isOpen := Function.update w.isOpen c false }

/-- A connection ends by itself. -/
def endConn (w : World) (c : Conn) (abnormal : Bool) : World :=
  ((w.shut c).deliver c (if abnormal then .dropped else .closed)).listen c none

/-! ## The ways a call goes on -/

def goto (w : World) (f : Frame) (rest : List Frame) (pc : Pc) : World :=
  { w with stack := { f with pc := pc } :: rest }

/-- The `finally` block, and the call is over. -/
def finish (w : World) (f : Frame) (rest : List Frame) (result : Result) : World :=
  let w := { w with staging := w.staging && f.keepStaging }
  match rest with
  | [] => { w with stack := [], result := some result }
  | outer :: rest => w.goto outer rest (.nested (some result))

def fail (w : World) (f : Frame) (rest : List Frame) : World :=
  w.closeOffload.finish f rest .failed

/-- `offloadBuild` calls itself. -/
def recurse (w : World) (f : Frame) (rest : List Frame) (restarts : Nat) : World :=
  { w with
    nextCall := w.nextCall + 1
    stack := ⟨w.nextCall, restarts, false, false, false, .entry⟩ ::
      { f with pc := .nested none } :: rest }

/-- The start of `reprobe`. -/
def reprobe (w : World) (f : Frame) (rest : List Frame) (retry : Retry) : World :=
  (w.closeAll [w.connection]).goto f rest (.probing retry .resolving)

def retryAfterLoss (w : World) (f : Frame) (rest : List Frame) : World :=
  if MAX_WORKER_RESTARTS ≤ f.restarts then w.fail f rest else w.reprobe f rest .lost

/-- `choice` moves to its next machine. -/
def moveTo (w : World) (next : Conn) (more : List Conn) : World :=
  { w.closeAll [w.connection] with connection := next, runnersUp := more }

def retryCachedMiss (w : World) (f : Frame) (rest : List Frame) : World :=
  if w.cancelled then w.finish f rest .thrown
  else match w.runnersUp with
    | next :: more => (w.moveTo next more).recurse f rest f.restarts
    | [] => if w.cacheOnly then w.fail f rest else w.reprobe f rest .cachedMiss

/-- An error: the `catch` block, or out of it. -/
def raise (w : World) (f : Frame) (rest : List Frame) : World :=
  if w.cancelled || f.catching then w.finish f rest .thrown
  else if f.cacheHit then w.retryCachedMiss { f with catching := true } rest
  else w.fail { f with catching := true } rest

/-- `if (moveOn(why)) continue; return otherwise` -/
def moveOn (w : World) (f : Frame) (rest : List Frame) (otherwise : World) : World :=
  match w.runnersUp with
  | next :: more => (w.moveTo next more).goto f rest .loop
  | [] => otherwise

/-- From the end of the loop to `await outcome`. -/
def awaitOutcome (w : World) (f : Frame) (rest : List Frame) : World :=
  let w := if f.cacheHit then w else { w.closeAll w.runnersUp with runnersUp := [] }
  let early := (w.shared f.id).early
  ((w.setShared f.id { w.shared f.id with early := [] }).handleAll f.id early).goto f rest .outcome

def succeed (w : World) (f : Frame) (rest : List Frame) : World :=
  w.closeOffload.finish { f with keepStaging := true } rest .ok

/-! ## The steps of the innermost call -/

def resumeProbing (w : World) (f : Frame) (rest : List Frame) (retry : Retry) :
    ProbeStage → Reply → Option World
  | .resolving, .success _ => some (w.goto f rest (.probing retry .connecting))
  | .resolving, .failure _ => some (w.goto f rest (.probed retry (.failure false)))
  | .connecting, .success supported =>
      if supported then some (w.openConn.goto f rest (.probing retry (.starting w.nextConn)))
      else some ((w.openConn.closeAll [w.nextConn]).goto f rest (.probed retry (.failure false)))
  | .connecting, .failure refused => some (w.goto f rest (.probed retry (.failure refused)))
  | .starting c, .success _ => some (w.goto f rest (.probing retry (.offering c)))
  | .starting c, .failure refused =>
      some ((w.closeAll [c]).goto f rest (.probed retry (.failure refused)))
  | .offering c, .success _ => some (w.goto f rest (.probed retry (.offer c)))
  | .offering c, .failure _ =>
      some ((w.closeAll [c]).goto f rest (.probed retry (.failure false)))
  -- the reply is no offer: its connection is not closed
  | .offering _, .raises => some (w.raise f rest)
  | _, _ => none

/-- `reprobe` once its probe has returned. -/
def resumeProbed (w : World) (f : Frame) (rest : List Frame) (retry : Retry) (again fits : Bool) :
    Probe → World
  | .failure refused =>
      if !refused && again && retry = .lost then w.goto f rest (.delaying retry)
      else if w.cancelled then w.raise f rest
      else w.fail f rest
  | .offer c =>
      if w.cancelled then w.raise f rest
      else if fits then { w with connection := c }.goto f rest (.reprobed retry)
      else (w.closeAll [c]).fail f rest

/-- The call once its outcome is there. -/
def resumeOutcome (w : World) (f : Frame) (rest : List Frame) (ok accepted : Bool) : World :=
  if w.cancelled then w.raise f rest
  else
    let w := w.listen w.connection none
    if !ok then
      if (w.shared f.id).jobLost then w.retryAfterLoss f rest else w.fail f rest
    else if !accepted then w.fail f rest
    else { w with staging := true }.goto f rest .fetch

/-- `build.start` is sent. -/
def sendStart (w : World) (f : Frame) (rest : List Frame) (enabled : Bool) : World :=
  let w := (w.setShared f.id { w.shared f.id with early := [] }).listen w.connection
    (some (.call f.id))
  if !enabled || w.cancelled then w.raise f rest else w.goto f rest .start

def resume (w : World) (f : Frame) (rest : List Frame) (reply : Reply) : Option World :=
  match f.pc, reply with
  | .entry, .checked valid =>
      some (if w.cancelled then w.raise f rest
        else if valid then w.goto f rest .loop else w.fail f rest)
  | .loop, .usable yes =>
      some (if yes then w.goto f rest .peer else w.moveOn f rest (w.fail f rest))
  | .peer, .raises => some (w.raise f rest)
  | .peer, .artifact hit =>
      some (if hit then (w.settle f.id true).awaitOutcome { f with cacheHit := true } rest
        else if w.cacheOnly then w.fail f rest else w.goto f rest .inputs)
  | .inputs, .raises => some (w.raise f rest)
  | .inputs, .inputs => some (w.goto f rest .sync)
  | .sync, .raises => some (w.raise f rest)
  | .sync, .synced complete enabled =>
      some (if w.cancelled then w.raise f rest
        else if complete then w.sendStart f rest enabled
        else w.moveOn f rest
          (if w.isOpen w.connection then w.fail f rest else w.retryAfterLoss f rest))
  | .start, .job =>
      some (if w.cancelled then w.raise f rest
        else (w.setShared f.id { w.shared f.id with job := true }).awaitOutcome f rest)
  | .start, .refused badRequest =>
      some (if w.cancelled then w.raise f rest
        else if badRequest then w.fail f rest else w.moveOn f rest (w.fail f rest))
  | .outcome, .outcome accepted =>
      (w.shared f.id).settled.map fun ok => w.resumeOutcome f rest ok accepted
  | .fetch, .raises => some (w.raise f rest)
  | .fetch, .fetched complete =>
      some (if !complete then
          if f.cacheHit then w.retryCachedMiss f rest else w.fail f rest
        else if f.cacheHit && w.swiftpm then w.goto f rest .recheck
        else w.succeed f rest)
  | .recheck, .raises => some (w.raise f rest)
  | .recheck, .artifact hit =>
      some (if hit then w.succeed f rest else w.retryCachedMiss f rest)
  | .probing retry stage, reply => w.resumeProbing f rest retry stage reply
  | .probed retry probe, .probed again fits =>
      some (w.resumeProbed f rest retry again fits probe)
  -- neither is that of an offer that cannot be placed
  | .probed _ (.offer _), .raises => some (w.raise f rest)
  | .delaying retry, .resumed =>
      some (if w.cancelled then w.raise f rest
        else w.goto f rest (.probing retry .resolving))
  | .reprobed retry, .resumed =>
      some (w.recurse f rest (if retry = .lost then f.restarts + 1 else f.restarts))
  | .nested (some .thrown), .resumed => some (w.raise f rest)
  | .nested (some result), .resumed =>
      some (w.finish { f with keepStaging := result = .ok } rest result)
  | _, _ => none

/-! ## The steps of a reattachment -/

/-- The end of a turn of `resumeJob`. -/
def turn (w : World) (k : CallId) (late : Bool) : ReattachStage :=
  if (w.shared k).settled.isSome || late then .resumed .failure else .pausing

def setStage (w : World) (k : CallId) (task : Reattach) (stage : ReattachStage) : World :=
  w.setShared k { w.shared k with reattach := some { task with stage := stage } }

/-- The reply to `build.attach`, or the error that came instead. -/
def answered (w : World) (k : CallId) (task : Reattach) (c : Conn)
    (reply : Except (AttachError × Bool) (Option Bool)) : World :=
  if (w.shared k).settled.isSome then
    (w.closeAll [c]).setStage k task (.resumed .failure)
  else match reply with
    | .ok outcome => w.setStage k task (.resumed (.connection c outcome))
    | .error (.connection, late) => (w.closeAll [c]).setStage k task (w.turn k late)
    | .error (.unknownJob, _) => (w.closeAll [c]).setStage k task (.resumed .lost)
    | .error (.other, _) => (w.closeAll [c]).setStage k task (.resumed .failure)

/-- `reattach` once `resumeJob` has resolved. -/
def reattached (w : World) (k : CallId) (task : Reattach) (result : Resumed) : World :=
  let w := w.setShared k { w.shared k with reattach := none }
  if (w.shared k).settled.isSome then
    match result with
    | .connection c _ => w.closeAll [c]
    | _ => w
  else match result with
    | .failure => w.settle k false
    | .lost => (w.setShared k { w.shared k with jobLost := true }).settle k false
    | .connection c outcome =>
        let w := { w with connection := c }.listen c (some (.call k))
        let w := match outcome with
          | none => w
          | some ok => w.settle k ok
        w.handleAll k task.early

def resumeReattach (w : World) (k : CallId) (task : Reattach) (reply : ReattachReply) :
    Option World :=
  match task.stage, reply with
  | .resolving, .resolved => some (w.setStage k task .connecting)
  | .resolving, .noConnection _ late => some (w.setStage k task (w.turn k late))
  | .connecting, .noConnection refused late =>
      some (w.setStage k task (if refused then .resumed .failure else w.turn k late))
  | .connecting, .opened supported spliced =>
      let c := w.nextConn
      some (if (w.shared k).settled.isSome || !supported then
          (w.openConn.closeAll [c]).setStage k task (.resumed .failure)
        else (w.openConn.listen c (some (.reattach k))).setStage k { task with early := [] }
          (if spliced then .attaching c else .handing c))
  | .attaching c, .attached => some (w.setStage k task (.handing c))
  | .attaching c, .error error late => some (w.answered k task c (.error (error, late)))
  | .handing c, .handed outcome => some (w.answered k task c (.ok outcome))
  | .handing c, .error error late => some (w.answered k task c (.error (error, late)))
  | .pausing, .resumed =>
      some (w.setStage k task
        (if (w.shared k).settled.isSome then .resumed .failure else .resolving))
  | .resumed result, .resumed => some (w.reattached k task result)
  | _, _ => none

/-! ## Cancellation -/

/-- A connection that `resumeJob` closes when the run is cancelled. -/
def aborts (w : World) (c : Conn) : Bool :=
  match w.listener c with
  | some (.reattach k) =>
      match (w.shared k).reattach with
      | some ⟨.attaching c', _⟩ => c' = c
      | some ⟨.handing c', _⟩ => c' = c
      | _ => false
  | _ => false

def settleAll (w : World) (frames : List Frame) : World :=
  frames.foldl (fun w f => w.settle f.id false) w

/-- The listeners of the signal: those of the calls and those of the reattachments. -/
def cancel (w : World) : World :=
  let w := { w with
    cancelled := true
    isOpen := fun c => w.isOpen c && !w.aborts c
    listener := fun c => if w.aborts c then none else w.listener c }
  if w.stack = [] then w else (w.settleAll w.stack).closeOffload

end World

/-! ## Runs -/

inductive Action where
  /-- what the innermost call waits for is there -/
  | resume (reply : Reply)
  | resumeReattach (k : CallId) (reply : ReattachReply)
  /-- a machine reports the build's outcome -/
  | built (c : Conn) (ok : Bool)
  /-- a connection ends by itself -/
  | ends (c : Conn) (abnormal : Bool)
  /-- `JOB_TIMEOUT_MS` has passed -/
  | timeout
  | cancel
  deriving DecidableEq, Repr

def step (w : World) : Action → Option World
  | .resume reply =>
      match w.stack with
      | [] => none
      | f :: rest => w.resume f rest reply
  | .resumeReattach k reply =>
      match (w.shared k).reattach with
      | none => none
      | some task => w.resumeReattach k task reply
  | .built c ok => if w.isOpen c then some (w.deliver c (.built ok)) else none
  | .ends c abnormal => if w.isOpen c then some (w.endConn c abnormal) else none
  | .timeout =>
      match w.stack with
      | [] => none
      | f :: _ => if f.pc = .outcome then some (w.settle f.id false) else none
  | .cancel => if w.cancelled then none else some w.cancel

end Stim.Cli.OffloadBuild
