import Stim.Lib.Batches
import Stim.Lib.Hex
import Stim.Lib.Interleaving
import Stim.Lib.OrderedMap

/-!
# Source upload

`BuildSession` of `packages/stim-cli/src/job/offload/host.ts` as `serve.ts` drives it, and
`syncSource` of `offload/client.ts` against it.  Every connection of a client has a job process of
its own, and all of them keep their blobs in the client's one directory.  A process performs one
file operation at a time and may die between any two.

A connection hands its messages to the session in order, so the client's side of an upload is
composed with the session's.  No blob is deleted meanwhile.
-/

namespace Stim.Cli.BuildSession

abbrev Bytes := List UInt8

/-- SHA-256 as 64 hexadecimal digits. -/
abbrev Digest := String

abbrev JobPid := Nat

/-- What follows `.incoming-` in the name of a partial upload. -/
abbrev Uuid := Nat

/-! ## The manifest -/

inductive FileKind where
  | file | exec | link | directory
  deriving DecidableEq

structure BuildFile where
  path : String
  kind : FileKind
  size : Nat
  sha256 : Digest
  deriving DecidableEq

inductive ErrorCode where
  | badRequest | buildBusy | buildRefused | limitExceeded
  deriving DecidableEq

def ErrorCode.text : ErrorCode → String
  | .badRequest => "bad-request"
  | .buildBusy => "build-busy"
  | .buildRefused => "build-refused"
  | .limitExceeded => "limit-exceeded"

structure Refusal where
  code : ErrorCode
  message : String
  deriving DecidableEq

/-- What the job process is configured with and computes outside this model. -/
structure Host where
  sha256 : Bytes → Digest
  /-- `JSON.stringify` of a manifest entry; `none` is one of another shape -/
  json : Option BuildFile → String
  gb : Nat → String
  minFreeBytes : Nat
  maxManifestBytes : Nat

def digestBytes : Nat := 32
def maxManifestFiles : Nat := 200000
def maxFileBytes : Nat := 4 * 1024 ^ 3
def maxPathChars : Nat := 1024

/-- A string's `length`: UTF-16 code units. -/
def utf16Length (text : String) : Nat :=
  (text.toList.map fun c => if c.toNat < 0x10000 then 1 else 2).sum

def validBuildPath (path : String) : Bool :=
  path ≠ "" && utf16Length path ≤ maxPathChars && !path.toList.contains '\x00' &&
    (path.toList.splitOn '/').all fun part =>
      part ≠ [] && part ≠ ['.'] && part ≠ ['.', '.'] &&
        part.map Char.toLower ≠ ['.', 'g', 'i', 't']

/-- `/^[0-9a-f]{64}$/` -/
def isDigest (sha256 : Digest) : Bool :=
  sha256.toList.length = 64 && sha256.toList.all fun c => c ∈ Hex.alphabet

def validFile (host : Host) (file : BuildFile) : Bool :=
  validBuildPath file.path &&
    !(file.kind = .directory && (file.size ≠ 0 || file.sha256 ≠ host.sha256 [])) &&
    file.size ≤ maxFileBytes && isDigest file.sha256

/-- `BUILD_REPO_PATTERN` -/
def validRepo (repo : String) : Bool :=
  match repo.toList with
  | [] => false
  | first :: rest =>
      first.isAlphanum && rest.length ≤ 79 &&
        rest.all fun c => c.isAlphanum || c = '.' || c = '_' || c = '-'

/-! ## Sessions -/

/-- A blob part of whose frames have come. -/
structure Incoming where
  sha256 : Digest
  size : Nat
  received : Nat
  /-- what the running hash was fed -/
  hash : Bytes
  tmp : Uuid

structure Session where
  repo : Option String
  files : OrderedMap String BuildFile
  bytes : Nat
  done : Bool
  expected : OrderedMap Digest Nat
  incoming : Option Incoming

def Session.fresh : Session := ⟨none, .empty, 0, false, .empty, none⟩

/-- The manifest a `build.sync` of `repo` goes on with. -/
def Session.openManifest (session : Session) (repo : String) : Session :=
  if session.done ∨ session.repo ≠ some repo then
    { session with repo := some repo, files := .empty, bytes := 0, done := false }
  else session

def Session.addFile (session : Session) (file : BuildFile) : Session :=
  { session with bytes := session.bytes + file.size, files := session.files.set file.path file }

def Session.expect (session : Session) (file : BuildFile) : Session :=
  { session with expected := session.expected.set file.sha256 file.size }

/-- The parameters of `build.sync`.  `""` stands for a repository that is no string, and `none`
for a value of another type. -/
structure SyncParams where
  repo : String
  files : Option (List (Option BuildFile))
  done : Option Bool
  deriving DecidableEq

/-- A `build.sync` and its answer: the digests asked for, or why it is refused. -/
structure Exchange where
  params : SyncParams
  answer : Except Refusal (List Digest)

/-- The parameters of `build.start` the manifest has a part in.  `shape` and `options` are what the
checks of the other fields answer, those before and those after the check of the entries' kinds. -/
structure StartParams where
  repo : String
  native : Bool
  project : String
  compat : Bool
  shape : Option Refusal
  options : Option Refusal
  deriving DecidableEq

/-- A `build.start` that got as far as `host.launch`. -/
structure Launch where
  job : JobPid
  repo : String
  manifest : List BuildFile
  /-- the session's `build.sync` requests until then -/
  synced : List Exchange

/-! ## The file operations -/

inductive Op where
  | load
  | store (session : Session)
  | exit
  | reply (exchange : Exchange)
  | lowDisk (bytes : Nat)
  | existsSync (sha256 : Digest)
  | randomUUID
  | appendFileSync (tmp : Uuid) (data : Bytes)
  | rmSync (tmp : Uuid)
  | renameSync (tmp : Uuid) (sha256 : Digest)
  | launch (repo : String) (manifest : List BuildFile)

@[reducible] def Op.Res : Op → Type
  | .load => Session
  | .lowDisk _ => Option String
  | .existsSync _ => Bool
  | .randomUUID => Uuid
  | .launch _ _ => Option Refusal
  | _ => Unit

abbrev Code (α : Type) := Interleaving.Prog Op Op.Res α

def perform (o : Op) : Code o.Res := Interleaving.Prog.perform o

/-! ## `build.sync` -/

section Handlers

variable (host : Host)

/-- The loop over one page's entries. -/
def syncFiles : List (Option BuildFile) → Session → List Digest →
    Code (Session × Except Refusal (List Digest))
  | [], session, missing => pure (session, .ok missing)
  | entry :: rest, session, missing =>
      match entry.filter (validFile host) with
      | none =>
          pure (session, .error ⟨.badRequest,
            "Invalid manifest entry " ++ String.ofList ((host.json entry).toList.take 200) ++ "."⟩)
      | some file =>
          if host.maxManifestBytes < session.bytes + file.size then
            pure (session, .error ⟨.limitExceeded,
              "A manifest holds at most " ++ host.gb host.maxManifestBytes ++ " GB."⟩)
          else if ((session.addFile file).expected.get file.sha256).isSome then
            syncFiles rest (session.addFile file) missing
          else do
            let there ← perform (.existsSync file.sha256)
            if there then syncFiles rest (session.addFile file) missing
            else syncFiles rest ((session.addFile file).expect file) (missing ++ [file.sha256])

/-- `sync` once the request is well formed and the disk has room. -/
def syncManifest (repo : String) (files : List (Option BuildFile)) (done : Bool)
    (session : Session) : Code (Session × Except Refusal (List Digest)) :=
  let session := session.openManifest repo
  if maxManifestFiles < session.files.entries.length + files.length then
    pure (session, .error ⟨.limitExceeded,
      "A manifest holds at most " ++ toString maxManifestFiles ++ " files."⟩)
  else do
    let (session, answer) ← syncFiles host files session []
    match answer with
    | .error refusal => pure (session, .error refusal)
    | .ok missing => pure ({ session with done := done }, .ok missing)

def sync (params : SyncParams) : Code (Except Refusal (List Digest)) :=
  match validRepo params.repo, params.files, params.done with
  | true, some files, some done => do
      match ← perform (.lowDisk 0) with
      | some low =>
          pure (.error ⟨.buildBusy, "This machine declines the upload: " ++ low ++ "."⟩)
      | none =>
          let session ← perform .load
          let (session, answer) ← syncManifest host params.repo files done session
          perform (.store session)
          pure answer
  | true, some _, none => pure (.error ⟨.badRequest, "build.sync needs params.done."⟩)
  | _, _, _ =>
      pure (.error ⟨.badRequest, "build.sync needs params.repo, params.files and params.done."⟩)

def handleSync (params : SyncParams) : Code (Except Refusal (List Digest)) := do
  let answer ← sync host params
  perform (.reply ⟨params, answer⟩)
  pure answer

/-! ## Blob frames -/

/-- A frame's data for the blob that is coming in. -/
def receive (session : Session) (incoming : Incoming) (data : Bytes) : Code (Option String) :=
  let received := incoming.received + data.length
  if incoming.size < received then do
    perform (.store { session with incoming := some { incoming with received := received } })
    pure (some ("blob " ++ incoming.sha256 ++ " is larger than its manifest entry"))
  else do
    let incoming := { incoming with received := received, hash := incoming.hash ++ data }
    perform (.appendFileSync incoming.tmp data)
    if received < incoming.size then
      perform (.store { session with incoming := some incoming })
      pure none
    else
      perform (.store { session with
        incoming := none, expected := session.expected.delete incoming.sha256 })
      if host.sha256 incoming.hash ≠ incoming.sha256 then
        perform (.rmSync incoming.tmp)
        pure (some ("blob " ++ incoming.sha256 ++ " does not match its digest"))
      else
        perform (.renameSync incoming.tmp incoming.sha256)
        pure none

def blob (frame : Bytes) : Code (Option String) :=
  if frame.length < digestBytes then
    pure (some "a blob frame starts with its 32-byte sha256")
  else do
    let sha256 := String.ofList (Hex.encode (frame.take digestBytes))
    let data := frame.drop digestBytes
    let session ← perform .load
    match session.incoming with
    | some incoming =>
        if incoming.sha256 ≠ sha256 then
          pure (some "a blob started before the previous one ended")
        else receive host session incoming data
    | none =>
        match session.expected.get sha256 with
        | none => pure (some ("blob " ++ sha256 ++ " was not asked for"))
        | some size =>
            match ← perform (.lowDisk size) with
            | some low => pure (some ("this machine declines the upload: " ++ low))
            | none =>
                let tmp ← perform .randomUUID
                receive host session ⟨sha256, size, 0, [], tmp⟩ data

/-- `session.close()` at the end of the connection; the process exits. -/
def close : Code Unit := do
  let session ← perform .load
  match session.incoming with
  | none => perform .exit
  | some incoming =>
      perform (.rmSync incoming.tmp)
      perform .exit

/-- A refused frame ends the connection. -/
def handleBinary (frame : Bytes) : Code (Option String) := do
  match ← blob host frame with
  | none => pure none
  | some refused =>
      close
      pure (some refused)

/-! ## `build.start` -/

/-- The `existsSync` loop: the first file whose blob is missing. -/
def absentBlob : List BuildFile → Code (Option BuildFile)
  | [] => pure none
  | file :: rest => do
      if ← perform (.existsSync file.sha256) then absentBlob rest else pure (some file)

inductive Started where
  | refused (refusal : Refusal)
  /-- the manifest `host.launch` was called with, and how it answered -/
  | launched (manifest : List BuildFile) (refusal : Option Refusal)
  deriving DecidableEq

/-- The checks of `start` before it looks at the blobs. -/
def startRefusal (session : Session) (params : StartParams) : Option Refusal :=
  if !validRepo params.repo then some ⟨.badRequest, "build.start needs params.repo."⟩
  else if params.shape.isSome then params.shape
  else if !params.native && session.files.values.any fun file => file.kind = .directory then
    some ⟨.badRequest, "Directory entries require a native build request."⟩
  else if params.options.isSome then params.options
  else if params.project ≠ "" && !validBuildPath params.project then
    some ⟨.badRequest, "params.project must be a relative path inside the repository."⟩
  else if !session.done || session.repo ≠ some params.repo then
    some ⟨.badRequest, "Send the whole manifest of this repo with build.sync first."⟩
  else if session.incoming.isSome ||
      session.files.values.any fun file => (session.expected.get file.sha256).isSome then
    some ⟨.badRequest, "Some files of the manifest were not uploaded."⟩
  else none

def start (params : StartParams) : Code Started := do
  let session ← perform .load
  match startRefusal session params with
  | some refusal => pure (.refused refusal)
  | none =>
      match ← absentBlob session.files.values with
      | some file =>
          pure (.refused ⟨.badRequest,
            "The blob of " ++ file.path ++ " is missing; sync again."⟩)
      | none =>
          if !params.compat then
            pure (.refused ⟨.badRequest, "build.start needs params.compat."⟩)
          else
            let refusal ← perform (.launch params.repo session.files.values)
            pure (.launched session.files.values refusal)

end Handlers

/-! ## The client -/

def pageBytes : Nat := 48 * 1024
def chunkBytes : Nat := 60 * 1024

/-- A listing of a checkout that does not change, and what `blobContent` reads of each entry. -/
structure Source (host : Host) where
  repo : String
  files : List BuildFile
  content : BuildFile → Bytes
  repo_valid : validRepo repo = true
  files_valid : ∀ file ∈ files, validFile host file = true
  paths_nodup : (files.map BuildFile.path).Nodup
  count_le : files.length ≤ maxManifestFiles
  bytes_le : (files.map BuildFile.size).sum ≤ host.maxManifestBytes
  content_sha256 : ∀ file ∈ files, host.sha256 (content file) = file.sha256
  content_length : ∀ file ∈ files, (content file).length = file.size

/-- How an upload with the start after it ended. -/
inductive Outcome where
  | failed (failure : String)
  | started (result : Started)
  deriving DecidableEq

section Client

variable (host : Host)

def entryBytes (file : BuildFile) : Nat := (host.json (some file)).utf8ByteSize + 1

/-- One `build.sync` a page, the last one marked done. -/
def syncPages (repo : String) : List (List BuildFile) → List Digest →
    Code (Except String (List Digest))
  | [], missing => pure (.ok missing)
  | page :: rest, missing => do
      match ← handleSync host ⟨repo, some (page.map some), some rest.isEmpty⟩ with
      | .error refusal =>
          pure (.error ("sync: " ++ refusal.code.text ++ ": " ++ refusal.message))
      | .ok more => syncPages repo rest (missing ++ more)

/-- Why the connection failed, if it did. -/
def sendFrames (header : Bytes) : List Bytes → Code (Option String)
  | [] => pure none
  | data :: rest => do
      match ← handleBinary host (header ++ data) with
      | some refused => pure (some refused)
      | none => sendFrames header rest

variable {host}

def Source.pages (source : Source host) : List (List BuildFile) :=
  batches (entryBytes host) pageBytes source.files

def Source.bySha (source : Source host) : OrderedMap Digest BuildFile :=
  .ofList (source.files.map fun file => (file.sha256, file))

def sendBlobs (source : Source host) : List Digest → Code (Option String)
  | [] => pure none
  | digest :: rest =>
      match source.bySha.get digest with
      | none => pure (some ("sync: the machine asked for an unknown blob " ++ digest))
      | some file =>
          if host.sha256 (source.content file) ≠ digest then
            pure (some ("sync: " ++ file.path ++ " changed while syncing"))
          else do
            match ← sendFrames host (Hex.decode digest.toList)
                (chunks chunkBytes (source.content file)) with
            | some failure => pure (some ("sync: " ++ failure))
            | none => sendBlobs source rest

def syncSource (source : Source host) : Code (Option String) := do
  match ← syncPages host source.repo source.pages [] with
  | .error failure => pure (some failure)
  | .ok missing => sendBlobs source missing

/-- An upload and the next `build.start` of its connection. -/
def offload (source : Source host) (params : StartParams) : Code Outcome := do
  match ← syncSource source with
  | some failure => pure (.failed failure)
  | none =>
      let result ← start params
      pure (.started result)

end Client

/-! ## The processes of a client -/

structure World where
  /-- the file at a digest's blob path -/
  blobs : Digest → Option Bytes
  tmps : Uuid → Option Bytes
  /-- the UUIDs that were drawn, and by whom -/
  drawn : List (Uuid × JobPid)
  alive : JobPid → Bool
  sessions : JobPid → Session
  synced : JobPid → List Exchange
  launches : List Launch

inductive Call (host : Host) where
  | sync (params : SyncParams)
  | blob (frame : Bytes)
  | start (params : StartParams)
  | close
  | offload (source : Source host) (params : StartParams)

@[reducible] def Call.Ret {host : Host} : Call host → Type
  | .sync _ => Except Refusal (List Digest)
  | .blob _ => Option String
  | .start _ => Started
  | .close => Unit
  | .offload _ _ => Outcome

def Call.prog {host : Host} : (call : Call host) → Code call.Ret
  | .sync params => handleSync host params
  | .blob frame => handleBinary host frame
  | .start params => BuildSession.start params
  | .close => BuildSession.close
  | .offload source params => BuildSession.offload source params

/-- What the world leaves open: the free bytes of the worker root's volume, a random UUID and the
answer of `host.launch`. -/
structure Oracle where
  free : Option Nat
  uuid : Uuid
  refusal : Option Refusal

def lowDisk (host : Host) (free : Option Nat) (bytes : Nat) : Option String :=
  match free with
  | none => none
  | some free =>
      if free < host.minFreeBytes + bytes then
        some (host.gb free ++ " GB free, builds need " ++ host.gb host.minFreeBytes ++ " GB")
      else none

section Processes

variable (host : Host) (roomy : JobPid → Bool)

/-- One operation.  A process with room never reads too little free disk, and a UUID is drawn
once. -/
def exec (oracle : Oracle) (p : JobPid) : (o : Op) → World → Option (o.Res × World)
  | .load, w => some (w.sessions p, w)
  | .store session, w =>
      some ((), { w with sessions := Function.update w.sessions p session })
  | .exit, w => some ((), { w with alive := Function.update w.alive p false })
  | .reply exchange, w =>
      some ((), { w with synced := Function.update w.synced p (w.synced p ++ [exchange]) })
  | .lowDisk bytes, w =>
      let low := lowDisk host oracle.free bytes
      if roomy p && low.isSome then none else some (low, w)
  | .existsSync sha256, w => some ((w.blobs sha256).isSome, w)
  | .randomUUID, w =>
      if oracle.uuid ∈ w.drawn.map Prod.fst then none
      else some (oracle.uuid, { w with drawn := (oracle.uuid, p) :: w.drawn })
  | .appendFileSync tmp data, w =>
      some ((), { w with
        tmps := Function.update w.tmps tmp (some ((w.tmps tmp).getD [] ++ data)) })
  | .rmSync tmp, w => some ((), { w with tmps := Function.update w.tmps tmp none })
  | .renameSync tmp sha256, w =>
      some ((), { w with
        tmps := Function.update w.tmps tmp none
        blobs := Function.update w.blobs sha256 (w.tmps tmp) })
  | .launch repo manifest, w =>
      some (oracle.refusal, { w with
        launches := w.launches ++ [⟨p, repo, manifest, w.synced p⟩] })

def system : Interleaving.System Op Op.Res JobPid World where
  Call := Call host
  Ret := Call.Ret
  Oracle := Oracle
  prog _ call := call.prog
  exec := exec host roomy
  invoke p _ w := if w.alive p then some w else none
  finish _ _ _ w := some w
  crash p w := some { w with alive := Function.update w.alive p false }
  env _ _ := none

end Processes

end Stim.Cli.BuildSession
