import Mathlib.Algebra.Group.Nat.Defs
import Stim.Lib.Machine
import Mathlib.Data.List.Basic

/-!
# Offload jobs

`OffloadJobs` of `packages/server/src/offload-jobs.ts`, with the message and close handlers of
`server.ts` that drive it.  A job runs a client's Stim build as a child process and owns the
connection that started it: the connection's messages go to the child's stdin and the child's
frames go back.  A job changes its connection with `job.start {attach}`, and outlives a dropped
one by a grace time.

One step is what the server does in one turn.  A `job.start` that waits for an install takes two.
-/

namespace Stim.Server

abbrev ConnId := Nat
abbrev JobId := Nat
abbrev UploadId := Nat
abbrev TimerId := Nat

/-- A connection's client: its build approval's id and name. -/
structure JobClient where
  id : String
  name : String
  deriving DecidableEq

inductive OffloadJobKind
  | build | probe
  deriving DecidableEq

/-- The state of a child's stdin. -/
structure Stdin where
  /-- `end` was called -/
  ended : Bool
  destroyed : Bool
  deriving DecidableEq

def Stdin.writable (stdin : Stdin) : Bool := !stdin.ended && !stdin.destroyed

structure Job where
  kind : OffloadJobKind
  client : String
  repo : String
  stdin : Stdin
  socket : Option ConnId
  grace : Option TimerId
  deriving DecidableEq

def Job.endStdin (job : Job) : Job := { job with stdin := { job.stdin with ended := true } }

structure Upload where
  id : UploadId
  name : String
  size : Nat
  sha256 : String
  received : List UInt8
  deriving DecidableEq

/-- Why an install failed; `mismatch` when npm holds no release of this exact build. -/
structure InstallFailure where
  failure : String
  mismatch : Bool
  deriving DecidableEq

inductive ErrorCode
  | badRequest | buildBusy | buildRefused | forbidden | jobNeedsPackage | jobRefused
  | jobUnavailable
  deriving DecidableEq

inductive Answer
  | job (id : JobId)
  | upload (id : UploadId)
  | refused (code : ErrorCode) (message : String)
  deriving DecidableEq

structure PackageParams where
  name : String
  size : Nat
  sha256 : String
  deriving DecidableEq

def maxPackageBytes : Nat := 256 * 1024 ^ 2

/-- `/^[A-Za-z0-9._-]{1,200}\.tgz$/` -/
def packageName (name : String) : Bool :=
  let stem := name.toList.take (name.length - 4)
  name.toList.drop (name.length - 4) = ['.', 't', 'g', 'z'] &&
    1 ≤ stem.length && stem.length ≤ 200 &&
    stem.all fun c => c.isAlphanum || c = '.' || c = '_' || c = '-'

/-- `/^[0-9a-f]{64}$/` -/
def sha256Hex (digest : String) : Bool :=
  digest.length = 64 &&
    digest.toList.all fun c => c.isDigit || ('a' ≤ c && c ≤ 'f')

def PackageParams.valid (package : PackageParams) : Bool :=
  packageName package.name && 0 < package.size && package.size ≤ maxPackageBytes &&
    sha256Hex package.sha256

structure RunParams where
  kind : OffloadJobKind
  stim : String
  build : String
  repo : String
  upload : Option UploadId
  /-- `some none` is a value without the fields of a package -/
  package : Option (Option PackageParams)
  pack : Bool
  wait : Bool
  deriving DecidableEq

/-- The parameters of `job.start`, once its strings have been checked. -/
inductive JobParams
  | attach (id : JobId)
  | run (params : RunParams)
  | malformed
  deriving DecidableEq

/-- What a text message asks for; the other methods touch no job. -/
inductive Request
  | jobStart (params : JobParams)
  | other
  deriving DecidableEq

/-- How a build is installed on this machine. -/
inductive Entry
  | absent
  | unusable (why : String)
  | installed (cli : String)
  deriving DecidableEq

/-- What this machine does the same at all times. -/
structure Worker where
  machine : String
  sha256 : List UInt8 → String
  request : List UInt8 → Request

/-- What the server reads of the machine during one turn. -/
structure Reading where
  entry : String → Entry
  /-- why a client's job cannot start now -/
  admission : String → Option String
  buildAllowed : String → Bool
  acceptsClientBuilds : Bool
  now : Nat

structure Frame where
  data : List UInt8
  binary : Bool
  deriving DecidableEq

/-- What a `job.start` waits for. -/
inductive InstallSource
  | package
  | release
  deriving DecidableEq

/-- A `job.start` that waits for an install. -/
structure Waiting where
  client : JobClient
  params : RunParams
  source : InstallSource
  /-- how the install ended -/
  ended : Option (Option InstallFailure)
  deriving DecidableEq

inductive ReadyState
  | opened | closing
  /-- The close is reported. -/
  | closed
  deriving DecidableEq

structure Connection where
  device : Option JobClient
  ready : ReadyState
  /-- the messages that no request has taken -/
  queue : List Frame
  waiting : Option Waiting
  deriving DecidableEq

/-- A fetch that ended, as a `job.start` that waits for it sees it. -/
def Connection.fetched (connection : Connection) (build : String)
    (failure : Option InstallFailure) : Connection :=
  { connection with
    waiting := connection.waiting.map fun waiting =>
      if waiting.source = .release && waiting.params.build = build && waiting.ended.isNone then
        { waiting with ended := some failure }
      else waiting }

/-- A frame that passed between a connection and a job. -/
structure Passed where
  conn : ConnId
  job : JobId
  frame : Frame
  deriving DecidableEq

structure OffloadJobs where
  jobs : JobId → Option Job
  spliced : ConnId → Option JobId
  uploads : ConnId → Option Upload
  fetches : String → Bool
  failed : String → Option (InstallFailure × Nat)
  closed : Bool
  connections : ConnId → Connection
  /-- the armed timers, with the job whose stdin each ends -/
  timers : TimerId → Option JobId
  nextJob : JobId
  nextUpload : UploadId
  nextTimer : TimerId
  /-- the connection that each job was started by -/
  started : List (JobId × ConnId)
  /-- what was written to jobs -/
  written : List Passed
  /-- what jobs wrote to connections -/
  sent : List Passed
  answered : List (ConnId × Answer)

namespace OffloadJobs

def init : OffloadJobs where
  jobs := fun _ => none
  spliced := fun _ => none
  uploads := fun _ => none
  fetches := fun _ => false
  failed := fun _ => none
  closed := false
  connections := fun _ => ⟨none, .opened, [], none⟩
  timers := fun _ => none
  nextJob := 0
  nextUpload := 0
  nextTimer := 0
  started := []
  written := []
  sent := []
  answered := []

/-! ## The parts of a turn -/

def setJob (s : OffloadJobs) (id : JobId) (job : Option Job) : OffloadJobs :=
  { s with jobs := Function.update s.jobs id job }

def setConnection (s : OffloadJobs) (conn : ConnId) (connection : Connection) : OffloadJobs :=
  { s with connections := Function.update s.connections conn connection }

def splice (s : OffloadJobs) (conn : ConnId) (id : Option JobId) : OffloadJobs :=
  { s with spliced := Function.update s.spliced conn id }

def clearTimeout (s : OffloadJobs) (timer : Option TimerId) : OffloadJobs :=
  match timer with
  | none => s
  | some timer => { s with timers := Function.update s.timers timer none }

/-- `socket.close`: a connection that is open starts to close. -/
def closeSocket (s : OffloadJobs) (conn : ConnId) : OffloadJobs :=
  if (s.connections conn).ready = .opened then
    s.setConnection conn { s.connections conn with ready := .closing }
  else s

def answer (s : OffloadJobs) (conn : ConnId) (reply : Answer) : OffloadJobs :=
  { s with answered := s.answered ++ [(conn, reply)] }

def owns (s : OffloadJobs) (conn : ConnId) : Bool := (s.spliced conn).isSome

/-- Writing after the end destroys stdin, and passes nothing. -/
def deliver (s : OffloadJobs) (conn : ConnId) (frame : Frame) : OffloadJobs :=
  match s.spliced conn with
  | none => s
  | some id =>
      match s.jobs id with
      | none => s
      | some job =>
          if job.stdin.destroyed then s
          else if job.stdin.ended then
            s.setJob id (some { job with stdin := { job.stdin with destroyed := true } })
          else { s with written := s.written ++ [⟨conn, id, frame⟩] }

def attachSocket (s : OffloadJobs) (id : JobId) (job : Job) (conn : ConnId) : OffloadJobs :=
  ((s.clearTimeout job.grace).setJob id (some { job with grace := none, socket := some conn })).splice
    conn (some id)

/-- The abnormal code of a connection that dropped. -/
def closeAbnormal : Nat := 1006

def disconnected (s : OffloadJobs) (conn : ConnId) (code : Nat) : OffloadJobs :=
  let ends : Bool := code ≠ closeAbnormal || s.closed
  let s := { s with uploads := Function.update s.uploads conn none }
  match s.spliced conn with
  | none => s
  | some id =>
      let s := s.splice conn none
      match s.jobs id with
      | none => s
      | some job =>
          if ends then
            s.setJob id (some { job.endStdin with socket := none })
          else
            { s.setJob id (some { job with socket := none, grace := some s.nextTimer }) with
              timers := Function.update s.timers s.nextTimer (some id)
              nextTimer := s.nextTimer + 1 }

def notAccepted : String :=
  "This machine takes only published Stim builds. To take this build, run stim settings set server.acceptClientBuilds true on it."

def prepareUpload (s : OffloadJobs) (r : Reading) (conn : ConnId)
    (package : Option PackageParams) : OffloadJobs × Answer :=
  if !r.acceptsClientBuilds then (s, .refused .forbidden notAccepted)
  else
    match package.filter PackageParams.valid with
    | none => (s, .refused .badRequest
        s!"A package is a .tgz name, a size up to {maxPackageBytes} bytes and its sha256.")
    | some package =>
        ({ s with
            uploads := Function.update s.uploads conn
              (some ⟨s.nextUpload, package.name, package.size, package.sha256, []⟩)
            nextUpload := s.nextUpload + 1 },
          .upload s.nextUpload)

/-- Takes one binary message of an upload: `none` when the connection has none, and a text when it
is too long. -/
def receive (s : OffloadJobs) (conn : ConnId) (data : List UInt8) :
    OffloadJobs × Option (Option String) :=
  match s.uploads conn with
  | none => (s, none)
  | some upload =>
      if upload.size < upload.received.length + data.length then
        (s, some (some s!"{upload.name} is larger than it said"))
      else
        ({ s with
            uploads := Function.update s.uploads conn
              (some { upload with received := upload.received ++ data }) },
          some none)

def refusal (s : OffloadJobs) (r : Reading) (client : JobClient) : Option String :=
  if s.closed then some "This machine is stopping." else r.admission client.id

def cannotInstall (w : Worker) (stim failure : String) : String :=
  s!"worker {w.machine} cannot install stim {stim} ({failure}); building locally. On {w.machine} run: stim engine install {stim}"

def failedFetchMs : Nat := 10 * 60000

/-- `spawn`: a child with an open stdin, for a new job that has no connection. -/
def newJob (client : JobClient) (params : RunParams) : Job where
  kind := params.kind
  client := client.id
  repo := params.repo
  stdin := ⟨false, false⟩
  socket := none
  grace := none

def spawn (s : OffloadJobs) (conn : ConnId) (client : JobClient) (params : RunParams) :
    OffloadJobs :=
  { s.setJob s.nextJob (some (newJob client params)) with
    nextJob := s.nextJob + 1
    started := s.started ++ [(s.nextJob, conn)] }

/-- The end of `start`, where the build is installed. -/
def launch (s : OffloadJobs) (r : Reading) (conn : ConnId) (client : JobClient)
    (params : RunParams) : OffloadJobs × Answer :=
  match s.refusal r client with
  | some late => (s, .refused .buildBusy late)
  | none =>
      if (s.connections conn).ready ≠ .opened then
        (s, .refused .buildRefused "The connection closed.")
      else
        ((s.spawn conn client params).attachSocket s.nextJob (newJob client params) conn,
          .job s.nextJob)

/-- `start` after its install ended. -/
def installed (s : OffloadJobs) (w : Worker) (r : Reading) (conn : ConnId) (client : JobClient)
    (params : RunParams) (source : InstallSource) (failure : Option InstallFailure) :
    OffloadJobs × Answer :=
  match failure with
  | some failed =>
      if source = .release && failed.mismatch then
        (s, if r.acceptsClientBuilds then
            .refused .jobNeedsPackage
              s!"{w.machine} cannot fetch this build of stim {params.stim} from npm."
          else .refused .forbidden notAccepted)
      else (s, .refused .jobRefused (cannotInstall w params.stim failed.failure))
  | none =>
      match r.entry params.build with
      | .absent =>
          (s, .refused .jobRefused (cannotInstall w params.stim "the installed build is gone"))
      | .unusable why => (s, .refused .jobRefused why)
      | .installed _ => s.launch r conn client params

/-- What `start` comes to in its first turn. -/
inductive Started
  | answered (reply : Answer)
  | waits (source : InstallSource)
  deriving DecidableEq

/-- `start` where the build is not installed. -/
def installBuild (s : OffloadJobs) (w : Worker) (r : Reading) (conn : ConnId) (client : JobClient)
    (params : RunParams) : OffloadJobs × Started :=
  match params.upload with
  | some id =>
      match (s.uploads conn).filter fun upload => decide (upload.id = id) with
      | none => (s, .answered (.refused .badRequest "No such upload on this connection."))
      | some upload =>
          let s := { s with uploads := Function.update s.uploads conn none }
          if upload.received.length ≠ upload.size || w.sha256 upload.received ≠ upload.sha256 then
            (s, .answered (.refused .badRequest s!"{upload.name} did not arrive whole."))
          else (s, .waits .package)
  | none =>
      match params.package with
      | some package =>
          let prepared := s.prepareUpload r conn package
          (prepared.1, .answered prepared.2)
      | none =>
          if params.pack then
            (s, .answered (if r.acceptsClientBuilds then
              .refused .jobNeedsPackage
                s!"{w.machine} runs only builds it is sent for this Stim."
              else .refused .forbidden notAccepted))
          else
            match (s.failed params.build).filter fun recent =>
                decide (r.now - recent.2 < failedFetchMs) with
            | some recent =>
                let refused := s.installed w r conn client params .release (some recent.1)
                (refused.1, .answered refused.2)
            | none =>
                let s := { s with fetches := Function.update s.fetches params.build true }
                if !params.wait then
                  (s, .answered (.refused .jobUnavailable
                    s!"{w.machine} is installing stim {params.stim} to run this Mac's builds; it takes them once that finishes."))
                else (s, .waits .release)

def attach (s : OffloadJobs) (conn : ConnId) (client : JobClient) (id : JobId) :
    OffloadJobs × Answer :=
  match (s.jobs id).filter fun job => job.client = client.id && job.stdin.writable with
  | none => (s, .refused .badRequest "No such job for this device; it ended.")
  | some job =>
      let s := match job.socket with
        | none => s
        | some old => s.splice old none
      (s.attachSocket id job conn, .job id)

/-- The first turn of `start`. -/
def start (s : OffloadJobs) (w : Worker) (r : Reading) (conn : ConnId) (client : JobClient)
    (params : JobParams) : OffloadJobs × Started :=
  if s.owns conn then
    (s, .answered (.refused .badRequest "This connection already runs a job."))
  else
    match params with
    | .attach id =>
        let attached := s.attach conn client id
        (attached.1, .answered attached.2)
    | .malformed => (s, .answered (.refused .badRequest
        "job.start needs kind, stim, a 12-hex build and repo, or attach."))
    | .run params =>
        match s.refusal r client with
        | some why => (s, .answered (.refused .buildBusy why))
        | none =>
            match r.entry params.build with
            | .absent => s.installBuild w r conn client params
            | .unusable why => (s, .answered (.refused .jobRefused why))
            | .installed _ =>
                let launched := s.launch r conn client params
                (launched.1, .answered launched.2)

/-- `jobMethod`, up to the first wait of its `start`. -/
def jobMethod (s : OffloadJobs) (w : Worker) (r : Reading) (conn : ConnId) (client : JobClient)
    (params : JobParams) : OffloadJobs :=
  if !r.buildAllowed client.id then
    s.answer conn (.refused .forbidden
      "job.start needs build access, which this machine has not granted this device.")
  else
    let begun := s.start w r conn client params
    match begun.2, params with
    | .waits source, .run params =>
        begun.1.setConnection conn
          { begun.1.connections conn with waiting := some ⟨client, params, source, none⟩ }
    | .waits _, _ => begun.1
    | .answered reply, _ => begun.1.answer conn reply

/-- A queued message of a connection that is still open: `handleBinary` or `handle`. -/
def handle (s : OffloadJobs) (w : Worker) (r : Reading) (conn : ConnId) (frame : Frame) :
    OffloadJobs :=
  if (s.connections conn).ready ≠ .opened then s
  else if frame.binary then
    let received :=
      if (s.connections conn).device.isSome then s.receive conn frame.data else (s, none)
    match received.2 with
    | some none => received.1
    | _ => received.1.closeSocket conn
  else
    match (s.connections conn).device with
    | none => s.closeSocket conn
    | some device =>
        match w.request frame.data with
        | .other => s
        | .jobStart params => s.jobMethod w r conn device params

/-- The child's stdout passes frames to the connection that the job has now. -/
def output (s : OffloadJobs) (id : JobId) (job : Job) (frames : List Frame) : OffloadJobs :=
  match job.socket with
  | none => s
  | some conn =>
      if (s.connections conn).ready ≠ .opened then s
      else { s with sent := s.sent ++ frames.map fun frame => ⟨conn, id, frame⟩ }

/-- The child has ended. -/
def exited (s : OffloadJobs) (id : JobId) (job : Job) : OffloadJobs :=
  let s := (s.clearTimeout job.grace).setJob id none
  match job.socket with
  | none => s
  | some conn => (s.splice conn none).closeSocket conn

/-- Ends the input of the jobs of a client, or of all. -/
def stop (s : OffloadJobs) (client : Option String) : OffloadJobs :=
  { s with
    jobs := fun id => (s.jobs id).map fun job =>
      if client.all (job.client = ·) then Job.endStdin job else job }

/-! ## Steps -/

inductive Action
  /-- `hello` is accepted. -/
  | hello (conn : ConnId) (client : JobClient)
  /-- A message arrives. -/
  | message (conn : ConnId) (frame : Frame)
  /-- The next queued message of a connection is handled. -/
  | handle (conn : ConnId) (reading : Reading)
  /-- The fetch of a build ends, for every `job.start` that waits for it. -/
  | fetched (build : String) (failure : Option InstallFailure) (now : Nat)
  /-- The install of a sent package ends. -/
  | unpacked (conn : ConnId) (failure : Option InstallFailure)
  /-- A `job.start` goes on after its install. -/
  | resume (conn : ConnId) (reading : Reading)
  /-- A connection starts to close, from either side. -/
  | closing (conn : ConnId)
  /-- A connection reports its close. -/
  | reportClose (conn : ConnId) (code : Nat)
  /-- A grace timer fires. -/
  | expire (timer : TimerId)
  /-- A job writes frames. -/
  | output (id : JobId) (frames : List Frame)
  /-- The pipe to a job's stdin breaks. -/
  | breakStdin (id : JobId)
  /-- A job's child ends. -/
  | exit (id : JobId)
  | stop (client : Option String)
  /-- stimd stops. -/
  | close

variable (w : Worker)

def step (s : OffloadJobs) : Action → Option OffloadJobs
  | .hello conn client =>
      let connection := s.connections conn
      if connection.ready = .opened && connection.device.isNone then
        some (s.setConnection conn { connection with device := some client })
      else none
  | .message conn frame =>
      let connection := s.connections conn
      if connection.ready = .closed then none
      else if s.owns conn then some (s.deliver conn frame)
      else some (s.setConnection conn { connection with queue := connection.queue ++ [frame] })
  | .handle conn r =>
      let connection := s.connections conn
      match connection.waiting, connection.queue with
      | none, frame :: rest =>
          some ((s.setConnection conn { connection with queue := rest }).handle w r conn frame)
      | _, _ => none
  | .fetched build failure now =>
      if s.fetches build then
        some { s with
          fetches := Function.update s.fetches build false
          failed := Function.update s.failed build (failure.map fun failed => (failed, now))
          connections := fun conn => (s.connections conn).fetched build failure }
      else none
  | .unpacked conn failure =>
      let connection := s.connections conn
      match connection.waiting with
      | none => none
      | some waiting =>
          if waiting.source = .package && waiting.ended.isNone then
            some (s.setConnection conn
              { connection with waiting := some { waiting with ended := some failure } })
          else none
  | .resume conn r =>
      let connection := s.connections conn
      match connection.waiting with
      | none => none
      | some waiting =>
          match waiting.ended with
          | none => none
          | some failure =>
              let resumed := (s.setConnection conn { connection with waiting := none }).installed
                w r conn waiting.client waiting.params waiting.source failure
              some (resumed.1.answer conn resumed.2)
  | .closing conn =>
      if (s.connections conn).ready = .opened then some (s.closeSocket conn) else none
  | .reportClose conn code =>
      let connection := s.connections conn
      if connection.ready = .closed then none
      else some ((s.setConnection conn { connection with ready := .closed }).disconnected conn code)
  | .expire timer =>
      match s.timers timer with
      | none => none
      | some id =>
          let s := s.clearTimeout (some timer)
          some (s.setJob id ((s.jobs id).map Job.endStdin))
  | .output id frames =>
      match s.jobs id with
      | none => none
      | some job => some (s.output id job frames)
  | .breakStdin id =>
      match s.jobs id with
      | none => none
      | some job =>
          some (s.setJob id (some { job with stdin := { job.stdin with destroyed := true } }))
  | .exit id =>
      match s.jobs id with
      | none => none
      | some job => some (s.exited id job)
  | .stop client => some (s.stop client)
  | .close => some ({ s with closed := true }.stop none)

end OffloadJobs

end Stim.Server
