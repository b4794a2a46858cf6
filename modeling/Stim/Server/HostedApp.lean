import Stim.Lib.CutSection
import Stim.Lib.Machine
import Stim.Lib.OrderedMap

/-!
# Delivery of an app to a hosted session

A client offers an app attempt by the digest of its manifest, is told which content is missing,
and sends that content in chunks.  Content lies in one directory for all attempts of a session,
under its digest when it is complete and in a `.part` file while it is received.  A hand-over
copies content from a build on the server, and a prune removes what only earlier installed
attempts list.

Every operation holds the lock of the directory while it runs, except that a hand-over copies
before it takes the lock.  The server runs one section at a time and may die between two file
operations of it.

The digest and the reading of a manifest (`JSON.parse` and `parseHostedAppManifest`) are
parameters.  Left out are the shape of requests and their base64, the cache of verified files,
which spares a second reading of the same bytes, links in place of files, and the files of an
attempt other than its receipt.
-/

namespace Stim.HostedApp

open CutSection CutSection.Section

abbrev Bytes := List UInt8

def HOSTED_APP_CHUNK_BYTES : Nat := 32 * 1024

/-- A digest and the size that is declared with it. -/
structure Content (Digest : Type) where
  sha256 : Digest
  size : Nat
  deriving DecidableEq, Repr

inductive FileKind where
  | file
  | exec
  | link
  deriving DecidableEq, Repr

structure HostedAppFile (Digest : Type) extends Content Digest where
  path : String
  kind : FileKind
  deriving DecidableEq, Repr

inductive Mode where
  | development
  | release
  | process
  deriving DecidableEq, Repr

structure HostedAppOffer (Digest : Type) where
  attempt : String
  bundleId : String
  mode : Mode
  devClientScheme : Option String
  arguments : Option (List String)
  manifest : Content Digest
  deriving DecidableEq, Repr

inductive AppState where
  | receiving
  | installing
  | installed
  | unknown
  deriving DecidableEq, Repr

inductive Launched where
  | yes
  | unverified
  | no
  deriving DecidableEq, Repr

/-- What `receipt.json` holds. -/
structure Metadata (Digest : Type) extends HostedAppOffer Digest where
  state : AppState
  launched : Launched
  notice : Option String
  deriving DecidableEq, Repr

structure HostedAppRecord (Digest : Type) extends Metadata Digest where
  files : List (HostedAppFile Digest)
  deriving DecidableEq, Repr

/-- SHA-256 and what a manifest lists, or `none` when it is malformed. -/
structure Host (Digest : Type) where
  sha : Bytes → Digest
  manifestFiles : Bytes → Option (List (HostedAppFile Digest))

/-- The files of one session. -/
structure Storage (Digest : Type) where
  /-- The directories of the attempts, each with its receipt once that is written. -/
  apps : OrderedMap String (Option (Metadata Digest))
  blobs : OrderedMap Digest Bytes
  parts : Digest → Option Bytes
  /-- The temporary file of a hand-over. -/
  temps : Nat → Option Bytes

variable {Digest : Type} [DecidableEq Digest]

namespace Storage

/-! ## File operations -/

def rmBlob (d : Digest) (s : Storage Digest) : Storage Digest :=
  { s with blobs := s.blobs.delete d }

def rmPart (d : Digest) (s : Storage Digest) : Storage Digest :=
  { s with parts := Function.update s.parts d none }

def appendPart (d : Digest) (data : Bytes) (s : Storage Digest) : Storage Digest :=
  { s with parts := Function.update s.parts d (some ((s.parts d).getD [] ++ data)) }

/-- `renameSync(partial, complete)` -/
def renamePart (d : Digest) (s : Storage Digest) : Storage Digest :=
  match s.parts d with
  | none => s
  | some content => { s with
      parts := Function.update s.parts d none
      blobs := s.blobs.set d content }

/-- `renameSync(temp, blob)` -/
def renameTemp (id : Nat) (d : Digest) (s : Storage Digest) : Storage Digest :=
  match s.temps id with
  | none => s
  | some content => { s with
      temps := Function.update s.temps id none
      blobs := s.blobs.set d content }

/-- The directory of an attempt, with a receipt or without. -/
def setArea (attempt : String) (receipt : Option (Metadata Digest)) (s : Storage Digest) :
    Storage Digest :=
  { s with apps := s.apps.set attempt receipt }

def rmArea (attempt : String) (s : Storage Digest) : Storage Digest :=
  { s with apps := s.apps.delete attempt }

end Storage

/-! ## Reading -/

def validHostedAppBlob (host : Host Digest) (content : Option Bytes) (file : Content Digest) :
    Bool :=
  match content with
  | some bytes => bytes.length = file.size && host.sha bytes = file.sha256
  | none => false

def readHostedAppMetadata (s : Storage Digest) (attempt : String) :
    Except String (Metadata Digest) :=
  match s.apps.get attempt with
  | some (some metadata) =>
      if metadata.attempt = attempt then .ok metadata
      else .error "The hosted app receipt is malformed."
  | _ => .error "ENOENT: no such file or directory, open 'receipt.json'"

def readHostedApp (host : Host Digest) (s : Storage Digest) (attempt : String) :
    Except String (HostedAppRecord Digest) :=
  match readHostedAppMetadata s attempt with
  | .error e => .error e
  | .ok metadata =>
      match s.blobs.get metadata.manifest.sha256 with
      | none =>
          if metadata.state = .receiving then .ok { metadata with files := [] }
          else .error "The hosted app manifest is missing or malformed."
      | some content =>
          if !validHostedAppBlob host (some content) metadata.manifest then
            .error "The hosted app manifest differs from its digest."
          else match host.manifestFiles content with
            | none => .error "The hosted app manifest is missing or malformed."
            | some files =>
                if files = [] ∧ metadata.state ≠ .receiving then
                  .error "The hosted app manifest is missing or malformed."
                else .ok { metadata with files := files }

/-! ## Sections -/

abbrev Sec (Digest α : Type) := Section (Storage Digest) String α

def when (c : Bool) (f : Storage Digest → Storage Digest) : Sec Digest Unit :=
  if c then operate f else pure ()

def refuse (c : Bool) (message : String) : Sec Digest Unit :=
  if c then fail message else pure ()

def changeHostedApp (host : Host Digest) (attempt : String)
    (update : HostedAppRecord Digest → AppState × Launched × Option String) : Sec Digest Unit := do
  let s ← read
  let record ← ofExcept (readHostedApp host s attempt)
  let (state, launched, notice) := update record
  operate (Storage.setArea attempt (some { record with
    state := state, launched := launched, notice := notice }))

structure Missing (Digest : Type) extends Content Digest where
  offset : Nat
  deriving DecidableEq, Repr

/-- What an offer does for one listed content, and what it lists of it. -/
def missingContent (host : Host Digest) (file : Content Digest) :
    Sec Digest (List (Missing Digest)) := do
  let s ← read
  if validHostedAppBlob host (s.blobs.get file.sha256) file then pure []
  else do
    operate (Storage.rmBlob file.sha256)
    match s.parts file.sha256 with
    | none => pure [{ file with offset := 0 }]
    | some part =>
        if part.length < file.size then pure [{ file with offset := part.length }]
        else if validHostedAppBlob host (some part) file then do
          operate (Storage.renamePart file.sha256)
          pure []
        else do
          operate (Storage.rmPart file.sha256)
          pure [{ file with offset := 0 }]

def missingContents (host : Host Digest) :
    List (Content Digest) → Sec Digest (List (Missing Digest))
  | [] => pure []
  | file :: rest => do
      let here ← missingContent host file
      let later ← missingContents host rest
      pure (here ++ later)

/-- `record.files.length ? record.files : [record.manifest]`, each digest once. -/
def HostedAppRecord.contents (record : HostedAppRecord Digest) : List (Content Digest) :=
  let contents := if record.files = [] then [record.manifest] else record.files.map (·.toContent)
  (OrderedMap.ofList (contents.map fun file => (file.sha256, file))).values

def offerHostedApp (host : Host Digest) (offer : HostedAppOffer Digest) :
    Sec Digest (Metadata Digest × List (Missing Digest)) := do
  let s ← read
  let manifest := s.blobs.get offer.manifest.sha256
  when (manifest.isSome && !validHostedAppBlob host manifest offer.manifest)
    (Storage.rmBlob offer.manifest.sha256)
  let new := (s.apps.get offer.attempt).isNone
  when new (Storage.setArea offer.attempt none)
  when new (Storage.setArea offer.attempt
    (some { offer with state := .receiving, launched := .no, notice := none }))
  let t ← read
  let stored ← ofExcept (readHostedApp host t offer.attempt)
  refuse (stored.toHostedAppOffer ≠ offer)
    "This app attempt already describes different content."
  let missing ← missingContents host stored.contents
  pure (stored.toMetadata, missing)

/-- The content of a digest in an attempt, the manifest first. -/
def HostedAppRecord.content (record : HostedAppRecord Digest) (d : Digest) :
    Option (Content Digest) :=
  if record.manifest.sha256 = d then some record.manifest
  else (record.files.find? (·.sha256 = d)).map (·.toContent)

/-- The last chunk of a content is there. -/
def completeContent (host : Host Digest) (record : HostedAppRecord Digest)
    (file : Content Digest) : Sec Digest Nat := do
  let s ← read
  if !validHostedAppBlob host (s.parts file.sha256) file then do
    operate (Storage.rmPart file.sha256)
    fail "App content digest mismatch; the partial file was discarded."
  else do
    operate (Storage.renamePart file.sha256)
    let t ← read
    if file.sha256 = record.manifest.sha256 then
      match readHostedApp host t record.attempt with
      | .ok _ => pure file.size
      | .error e => do
          operate (Storage.rmBlob file.sha256)
          fail e
    else pure file.size

/-- A chunk for a content that is not complete. -/
def receiveChunk (host : Host Digest) (record : HostedAppRecord Digest) (file : Content Digest)
    (start : Nat) (data : Bytes) : Sec Digest Nat := do
  let s ← read
  let part := (s.parts file.sha256).getD []
  let current := part.length
  if start ≠ current then
    if start + data.length > current then fail s!"Resume this file at byte {current}."
    else if (part.drop start).take data.length ≠ data then
      fail "A replayed chunk differs from the received bytes."
    else pure current
  else do
    operate (Storage.appendPart file.sha256 data)
    if current + data.length ≠ file.size then pure (current + data.length)
    else completeContent host record file

def chunkHostedApp (host : Host Digest) (record : HostedAppRecord Digest) (sha256 : Digest)
    (start : Nat) (data : Bytes) : Sec Digest Nat :=
  match record.content sha256 with
  | none => fail "The chunk digest is not in this app attempt."
  | some file =>
      if data.length > HOSTED_APP_CHUNK_BYTES ∨ start + data.length > file.size ∨
          (data = [] ∧ file.size ≠ 0) then
        fail "The chunk exceeds the declared file."
      else do
        let s ← read
        if validHostedAppBlob host (s.blobs.get file.sha256) file then pure file.size
        else do
          operate (Storage.rmBlob file.sha256)
          let metadata ← ofExcept (readHostedAppMetadata s record.attempt)
          refuse (metadata.state ≠ .receiving) "This app attempt is no longer receiving content."
          receiveChunk host record file start data

/-- The locked part of a hand-over, for one file that was copied and checked. -/
def placeHandOver (host : Host Digest) (record : HostedAppRecord Digest) (id : Nat)
    (file : Content Digest) : Sec Digest Bool := do
  let s ← read
  if validHostedAppBlob host (s.blobs.get file.sha256) file then pure false
  else do
    let metadata ← ofExcept (readHostedAppMetadata s record.attempt)
    refuse (metadata.state ≠ .receiving) "This app attempt is no longer receiving content."
    operate (Storage.renameTemp id file.sha256)
    pure true

/-- `rmSync(path, { recursive: true })` for each attempt: its receipt, then its directory. -/
def rmAreas : List String → Sec Digest Unit
  | [] => pure ()
  | attempt :: rest => do
      operate (Storage.setArea attempt none)
      operate (Storage.rmArea attempt)
      rmAreas rest

def rmBlobs : List Digest → Sec Digest Unit
  | [] => pure ()
  | d :: rest => do
      operate (Storage.rmBlob d)
      rmBlobs rest

/-- The digests of an attempt. -/
def HostedAppRecord.digests (record : HostedAppRecord Digest) : List Digest :=
  record.manifest.sha256 :: record.files.map (·.sha256)

/-- The complete contents that no kept attempt refers to, when all of them can be asked. -/
def unusedBlobs (kept : List (HostedAppRecord Digest)) (entries : List Digest) : List Digest :=
  if kept.all (·.files ≠ []) then entries.filter (· ∉ kept.flatMap (·.digests)) else []

/-- The attempts and the complete contents are listed in the order that `readdirSync` answers. -/
def pruneHostedApps (host : Host Digest) (current : String) (attempts : List String)
    (entries : List Digest) : Sec Digest Unit := do
  let s ← read
  let records ← ofExcept (attempts.mapM (readHostedApp host s))
  refuse ((records.find? (·.attempt = current)).map (·.state) ≠ some .installed)
    "The replacement app installation is unresolved."
  let obsolete := records.filter fun record => record.attempt ≠ current && record.state = .installed
  let kept := records.filter fun record => record.attempt = current || record.state ≠ .installed
  rmAreas (obsolete.map (·.attempt))
  rmBlobs (unusedBlobs kept entries)

/-! ## Hand-overs -/

/-- What `lstat` and `realpath` answer for a file of the bundle. -/
structure Found where
  link : Bool
  regular : Bool
  size : Nat
  inside : Bool
  deriving DecidableEq, Repr

inductive HandPhase (Digest : Type) where
  | next
  /-- A copy of the file is at the temporary name. -/
  | copied (file : HostedAppFile Digest)
  /-- The copy has the size and the digest of the file. -/
  | checked (file : HostedAppFile Digest)
  deriving DecidableEq, Repr

/-- A call of `handOverHostedApp`. -/
structure Hand (Digest : Type) where
  record : HostedAppRecord Digest
  rest : List (HostedAppFile Digest)
  phase : HandPhase Digest
  files : Nat
  bytes : Nat
  deriving DecidableEq, Repr

/-- The checks before the first file. -/
def handOverHostedApp (record : HostedAppRecord Digest) (android apk : Bool) :
    Except String (Hand Digest) :=
  if android && !apk then .error "Hosted Android handoff requires an APK file."
  else if apk && (record.files.map fun file => (file.path, file.kind)) ≠ [("App.apk", .file)] then
    .error "Hosted Android handoff requires a single file entry named App.apk."
  else .ok { record := record, rest := record.files, phase := .next, files := 0, bytes := 0 }

/-- Whether a file of the bundle may be copied for one of the manifest. -/
def Found.fits (found : Found) (file : HostedAppFile Digest) : Bool :=
  (if file.kind = .link then found.link else found.regular) && found.size = file.size &&
    found.inside

/-! ## The server -/

structure State (Digest : Type) where
  storage : Storage Digest
  /-- What the last offer of an attempt listed to a connection. -/
  listed : Nat → String → List Digest
  hands : Nat → Option (Hand Digest)

/-- A session without an app. -/
def start : State Digest where
  storage := ⟨.empty, .empty, fun _ => none, fun _ => none⟩
  listed := fun _ _ => []
  hands := fun _ => none

/-- What happens next.  A section with a `cut` dies after so many file operations. -/
inductive Action (Digest : Type) where
  | offer (conn : Nat) (offer : HostedAppOffer Digest) (cut : Option Nat)
  | chunk (conn : Nat) (record : HostedAppRecord Digest) (sha256 : Digest) (start : Nat)
      (data : Bytes) (cut : Option Nat)
  | change (attempt : String)
      (update : HostedAppRecord Digest → AppState × Launched × Option String) (cut : Option Nat)
  | prune (current : String) (attempts : List String) (entries : List Digest) (cut : Option Nat)
  | handOver (id : Nat) (record : HostedAppRecord Digest) (android apk : Bool)
  /-- The next file of a hand-over is looked up, and copied when it fits. -/
  | copy (id : Nat) (found : Option Found) (copy : Bytes)
  | check (id : Nat)
  | place (id : Nat) (cut : Option Nat)
  | die

/-- The server dies.  Connections and hand-overs end with it. -/
def State.died (storage : Storage Digest) : State Digest where
  storage := storage
  listed := fun _ _ => []
  hands := fun _ => none

def State.setHand (s : State Digest) (id : Nat) (hand : Option (Hand Digest)) : State Digest :=
  { s with hands := Function.update s.hands id hand }

/-- `rmSync(temp, { force: true })` -/
def State.rmTemp (s : State Digest) (id : Nat) : State Digest :=
  { s with storage := { s.storage with temps := Function.update s.storage.temps id none } }

/-- Run a section, or cut it. -/
def State.runSection {α : Type} (s : State Digest) (m : Sec Digest α) (cut : Option Nat)
    (next : Except String α → State Digest → State Digest) : State Digest :=
  match cut with
  | some operations => .died (m.cut s.storage operations)
  | none => next (m.answer s.storage) { s with storage := m.after s.storage }

/-- One action; `none` when it cannot happen. -/
def step (host : Host Digest) (s : State Digest) : Action Digest → Option (State Digest)
  | .offer conn offer cut => some <| s.runSection (offerHostedApp host offer) cut fun answer t =>
      match answer with
      | .error _ => t
      | .ok (_, missing) => { t with
          listed := Function.update t.listed conn
            (Function.update (t.listed conn) offer.attempt (missing.map (·.sha256))) }
  | .chunk _ record sha256 start data cut =>
      some (s.runSection (chunkHostedApp host record sha256 start data) cut fun _ t => t)
  | .change attempt update cut =>
      some (s.runSection (changeHostedApp host attempt update) cut fun _ t => t)
  | .prune current attempts entries cut =>
      if attempts.Perm s.storage.apps.keys ∧ entries.Perm s.storage.blobs.keys then
        some (s.runSection (pruneHostedApps host current attempts entries) cut fun _ t => t)
      else none
  | .handOver id record android apk =>
      match s.hands id, s.storage.temps id with
      | none, none => match handOverHostedApp record android apk with
        | .ok hand => some (s.setHand id (some hand))
        | .error _ => some s
      | _, _ => none
  | .copy id found copy => match s.hands id with
      | some ⟨record, file :: rest, .next, files, bytes⟩ =>
          let done : Hand Digest := ⟨record, rest, .next, files, bytes⟩
          if validHostedAppBlob host (s.storage.blobs.get file.sha256) file.toContent then
            some (s.setHand id (some done))
          else match found with
            | none => some (s.setHand id (some done))
            | some found =>
                if found.fits file then
                  some { s.setHand id (some { done with phase := .copied file }) with
                    storage := { s.storage with
                      temps := Function.update s.storage.temps id (some copy) } }
                else some (s.setHand id (some done))
      | some ⟨_, [], .next, _, _⟩ => some (s.setHand id none)
      | _ => none
  | .check id => match s.hands id with
      | some ⟨record, rest, .copied file, files, bytes⟩ =>
          if validHostedAppBlob host (s.storage.temps id) file.toContent then
            some (s.setHand id (some ⟨record, rest, .checked file, files, bytes⟩))
          else some ((s.rmTemp id).setHand id (some ⟨record, rest, .next, files, bytes⟩))
      | _ => none
  | .place id cut => match s.hands id with
      | some ⟨record, rest, .checked file, files, bytes⟩ =>
          some <| s.runSection (placeHandOver host record id file.toContent) cut fun answer t =>
            match answer with
            | .ok true =>
                (t.rmTemp id).setHand id (some ⟨record, rest, .next, files + 1, bytes + file.size⟩)
            | .ok false => (t.rmTemp id).setHand id (some ⟨record, rest, .next, files, bytes⟩)
            | .error _ => (t.rmTemp id).setHand id none
      | _ => none
  | .die => some (.died s.storage)

end Stim.HostedApp
