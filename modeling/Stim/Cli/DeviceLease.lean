import Stim.Cli.DeviceCapacity
import Stim.Lib.Machine
import Mathlib.Data.List.AList

/-!
# Physical device leases

`packages/stim-cli/src/engine/device-lease.ts` and the lease part of
`packages/stim-cli/src/policy/admission.ts`.  A lease is a file per device; what a
workspace holds is recorded in its own state file.  Any number of calls run at once:
a section under a lease lock is one step, and a workspace has at most one call inside
its holder lock.
-/

namespace Stim.Cli

abbrev LeasePlatform := CappedPlatform

inductive LeaseKind where
  | declared
  | run
  deriving DecidableEq, Repr

structure DeviceLease where
  slot : Option String
  platform : LeasePlatform
  id : String
  deviceName : Option String
  holder : String
  token : String
  grantedAt : Option Nat
  expiresAt : Nat
  deriving DecidableEq, Repr

structure WorkspaceLeaseRecord where
  id : String
  token : String
  kind : LeaseKind
  deriving DecidableEq

/-- What `deviceSlotKey` names. -/
structure SlotKey where
  platform : LeasePlatform
  slot : String
  deriving DecidableEq

def DEFAULT_DEVICE_SLOT : String := "default"

def DeviceLease.slotName (lease : DeviceLease) : String := lease.slot.getD DEFAULT_DEVICE_SLOT

/-! ## Names and texts -/

/-- The characters `String.prototype.trim` removes. -/
def isSpace (c : Char) : Bool :=
  [9, 10, 11, 12, 13, 32, 160, 0x1680, 0x2028, 0x2029, 0x202F, 0x205F, 0x3000, 0xFEFF].contains
    c.toNat || (0x2000 ≤ c.toNat && c.toNat ≤ 0x200A)

/-- `text`: a string with more than spaces. -/
def text (value : String) : Option String :=
  if value.toList.all isSpace then none else some value

def isSegmentChar (c : Char) : Bool := c.isAlphanum || c == '.' || c == '_' || c == '-'

/-- Every run of other characters becomes one `-`. -/
def replaceRuns : Bool → List Char → List Char
  | _, [] => []
  | inRun, c :: rest =>
      if isSegmentChar c then c :: replaceRuns false rest
      else if inRun then replaceRuns true rest
      else '-' :: replaceRuns true rest

def segment (value : String) : String :=
  let kept := (replaceRuns false value.toList).dropWhile (· == '.')
  if kept.isEmpty then "unknown" else String.ofList kept

def CappedPlatform.text : LeasePlatform → String
  | .ios => "ios"
  | .android => "android"

/-- The lease file of a device, in the directory of the leases. -/
def deviceLeasePath (platform : LeasePlatform) (id : String) : String :=
  segment platform.text ++ "-" ++ segment id ++ ".json"

def DeviceLease.path (lease : DeviceLease) : String := deviceLeasePath lease.platform lease.id

def isDeviceSlot (slot : String) : Bool :=
  match slot.toList with
  | [] => false
  | c :: rest => c.isAlphanum && rest.length ≤ 63 &&
      (rest.all fun c => c.isAlphanum || c == '_' || c == '-') &&
      !List.contains ["constructor", "prototype", "__proto__"] slot

/-- The content of a lease file: a lease as it was written, or something else. -/
abbrev LeaseText := Option DeviceLease

/-- `parseLease` of a file's content. -/
def parseLease (raw : LeaseText) : Option DeviceLease :=
  match raw with
  | none => none
  | some lease =>
      if (text lease.id).isSome ∧ (text lease.holder).isSome ∧ (text lease.token).isSome ∧
          lease.slot.all isDeviceSlot then
        some { lease with deviceName := lease.deviceName.bind text }
      else none

/-! ## The policy -/

def leaseIsExpired (lease : DeviceLease) (now : Nat) : Bool := lease.expiresAt ≤ now

inductive LeaseGrant where
  | unreadable
  | held (lease : DeviceLease)
  | set (lease : DeviceLease) (expiresAt : Nat) (kind : LeaseKind)
  | taken (expiresAt : Nat) (kind : LeaseKind)

/-- What is asked for. -/
structure LeaseRequest where
  platform : LeasePlatform
  slot : String
  id : String
  deviceName : Option String
  kind : LeaseKind
  durationMs : Nat
  deriving DecidableEq

/-- Whether workspace `root` gets the device at `now`, given its lease file. -/
def leaseGrant (raw : Option LeaseText) (root : String) (request : LeaseRequest)
    (declared : Bool) (now : Nat) : LeaseGrant :=
  let asked := now + request.durationMs
  match raw.map parseLease with
  | some none => .unreadable
  | none => .taken asked request.kind
  | some (some lease) =>
      if leaseIsExpired lease now then .taken asked request.kind
      else if lease.holder ≠ root ∨ lease.slotName ≠ request.slot then .held lease
      else .set lease
        (if declared ∧ request.kind = .run then max asked lease.expiresAt else asked)
        (if declared then .declared else request.kind)

/-- The leases `root` holds for the slot on other devices. -/
def displacedLeases (leases : List DeviceLease) (root : String) (request : LeaseRequest) :
    List DeviceLease :=
  leases.filter fun lease => lease.platform = request.platform ∧ lease.holder = root ∧
    lease.slotName = request.slot ∧ lease.id ≠ request.id

inductive LeaseRaise where
  | lost
  | kept (lease : DeviceLease)
  | raised (lease : DeviceLease) (expiresAt : Nat)

def leaseRaise (lease : Option DeviceLease) (token : String) (now minMs : Nat) : LeaseRaise :=
  match lease with
  | none => .lost
  | some lease =>
      if lease.token ≠ token then .lost
      else if now + minMs ≤ lease.expiresAt then .kept lease
      else .raised lease (now + minMs)

/-! ## Calls -/

inductive TakeLeaseResult where
  | taken (lease : DeviceLease)
  | set (lease : DeviceLease)
  | held (lease : DeviceLease)
  | unreadable (path : String)
  deriving DecidableEq

inductive RaiseLeaseResult where
  | raised (lease : DeviceLease)
  | none
  | lost (lease : Option DeviceLease)

/-- The calls that run inside a holder lock. -/
inductive LeaseCall where
  | takeLease (request : LeaseRequest)
  | releaseRunLease (key : SlotKey)
  | releaseWorkspaceLeases (platform : Option LeasePlatform) (slot : Option String)
  deriving DecidableEq

/-- Where a call inside a holder lock stands. -/
inductive LeaseStage where
  /-- The lock has just been taken. -/
  | begun
  /-- `releaseHeld` is to come for these records of the workspace. -/
  | releasing (todo : List (SlotKey × WorkspaceLeaseRecord))
  /-- `releaseHeld` has left its lease section and turns to the workspace's record. -/
  | forgetting (key : SlotKey) (record : WorkspaceLeaseRecord)
      (todo : List (SlotKey × WorkspaceLeaseRecord))
  /-- `listLeaseFiles` has yet to read these files. -/
  | listing (todo : List String) (found : List DeviceLease)
  /-- `releaseByRoot` is to come for these leases. -/
  | displacing (todo : List DeviceLease)
  /-- The lease is written, the workspace's record is not. -/
  | recording (result : TakeLeaseResult) (record : WorkspaceLeaseRecord)
  | returned (result : Option TakeLeaseResult)
  deriving DecidableEq

structure HolderCall where
  call : LeaseCall
  /-- The workspace has declared a lease of the device asked for. -/
  declared : Bool
  stage : LeaseStage
  deriving DecidableEq

/-- A `raiseLease` that has read its workspace's record. -/
structure RaiseCall where
  root : String
  platform : LeasePlatform
  record : WorkspaceLeaseRecord
  minMs : Nat

/-- What a step of a `raiseLease` answered. -/
structure RaiseReturn where
  call : RaiseCall
  result : RaiseLeaseResult

abbrev LeaseFiles := AList fun _ : String => LeaseText

abbrev HolderRecords := AList fun _ : SlotKey => WorkspaceLeaseRecord

structure LeaseWorld where
  now : Nat
  files : LeaseFiles
  holders : String → HolderRecords
  calls : String → Option HolderCall
  raises : Nat → Option RaiseCall
  /-- The last answer of a `raiseLease`. -/
  answered : Option RaiseReturn
  /-- Who each token was drawn for. -/
  owner : String → Option String

namespace LeaseWorld

/-- Lease files that are no leases, and nothing else. -/
def initial (junk : List String) : LeaseWorld where
  now := 0
  files := junk.foldl (fun files path => files.insert path none) ∅
  holders _ := ∅
  calls _ := none
  raises _ := none
  answered := none
  owner _ := none

/-- The lease in a file. -/
def lease (w : LeaseWorld) (path : String) : Option DeviceLease :=
  (w.files.lookup path).bind parseLease

def setCall (w : LeaseWorld) (root : String) (call : HolderCall) : LeaseWorld :=
  { w with calls := Function.update w.calls root (some call) }

def writeLease (w : LeaseWorld) (lease : DeviceLease) : LeaseWorld :=
  { w with files := w.files.insert lease.path (some lease) }

def removeLease (w : LeaseWorld) (path : String) : LeaseWorld :=
  { w with files := w.files.erase path }

def writeHolder (w : LeaseWorld) (root : String) (records : HolderRecords) : LeaseWorld :=
  { w with holders := Function.update w.holders root records }

/-- What a call does first: it reads its workspace's records. -/
def plan (w : LeaseWorld) (root : String) (call : LeaseCall) : HolderCall :=
  match call with
  | .takeLease request =>
      let key : SlotKey := ⟨request.platform, request.slot⟩
      match (w.holders root).lookup key with
      | none => ⟨call, false, .releasing []⟩
      | some previous =>
          ⟨call, decide (previous.kind = .declared ∧ previous.id = request.id),
            .releasing (if previous.id = request.id then [] else [(key, previous)])⟩
  | .releaseRunLease key =>
      match (w.holders root).lookup key with
      | none => ⟨call, false, .returned none⟩
      | some record => ⟨call, false,
          if record.kind = .run then .releasing [(key, record)] else .returned none⟩
  | .releaseWorkspaceLeases platform slot =>
      ⟨call, false, .releasing (((w.holders root).entries.filter fun entry =>
        platform.all (· = entry.1.platform) && slot.all (· = entry.1.slot)).map
          fun entry => (entry.1, entry.2))⟩

/-- The lease section of `releaseHeld`. -/
def releaseHeld (w : LeaseWorld) (key : SlotKey) (record : WorkspaceLeaseRecord) : LeaseWorld :=
  let path := deviceLeasePath key.platform record.id
  match w.lease path with
  | some current => if current.token = record.token then w.removeLease path else w
  | none => w

/-- The rest of `releaseHeld`. -/
def forget (w : LeaseWorld) (root : String) (key : SlotKey) (record : WorkspaceLeaseRecord) :
    LeaseWorld :=
  let held := w.holders root
  if (held.lookup key).any (·.token = record.token) then w.writeHolder root (held.erase key)
  else w

/-- `releaseByRoot`. -/
def releaseByRoot (w : LeaseWorld) (root : String) (platform : LeasePlatform) (id : String) :
    LeaseWorld :=
  let path := deviceLeasePath platform id
  match w.lease path with
  | some current => if current.holder = root then w.removeLease path else w
  | none => w

/-- The leases a call releases by their holder, of those it has listed. -/
def toDisplace (root : String) (call : LeaseCall) (found : List DeviceLease) :
    List DeviceLease :=
  match call with
  | .takeLease request => displacedLeases found root request
  | .releaseRunLease _ => []
  | .releaseWorkspaceLeases platform slot => found.filter fun lease =>
      lease.holder = root && platform.all (· = lease.platform) && slot.all (· = lease.slotName)

/-- The lease section of `takeLease`, with a token drawn for it. -/
def grant (w : LeaseWorld) (root : String) (call : HolderCall) (request : LeaseRequest)
    (token : String) : LeaseWorld :=
  let path := deviceLeasePath request.platform request.id
  match leaseGrant (w.files.lookup path) root request call.declared w.now with
  | .unreadable => w.setCall root { call with stage := .returned (some (.unreadable path)) }
  | .held lease => w.setCall root { call with stage := .returned (some (.held lease)) }
  | .set lease expiresAt kind =>
      let kept := { lease with
        deviceName := request.deviceName.or lease.deviceName
        expiresAt }
      (w.writeLease kept).setCall root
        { call with stage := .recording (.set kept) ⟨request.id, kept.token, kind⟩ }
  | .taken expiresAt kind =>
      let granted : DeviceLease :=
        { slot := if request.slot = DEFAULT_DEVICE_SLOT then none else some request.slot
          platform := request.platform
          id := request.id
          deviceName := request.deviceName
          holder := root
          token
          grantedAt := some w.now
          expiresAt }
      { (w.writeLease granted).setCall root
        { call with stage := .recording (.taken granted) ⟨request.id, token, kind⟩ } with
        owner := Function.update w.owner token (some root) }

/-- The next step of a call inside a holder lock.  `token` is drawn at random. -/
def proceed (w : LeaseWorld) (root : String) (call : HolderCall) (token : String) :
    Option LeaseWorld :=
  match call.stage with
  | .begun => some (w.setCall root (w.plan root call.call))
  | .releasing ((key, record) :: todo) =>
      some ((w.releaseHeld key record).setCall root
        { call with stage := .forgetting key record todo })
  | .forgetting key record todo =>
      some ((w.forget root key record).setCall root { call with stage := .releasing todo })
  | .releasing [] =>
      match call.call with
      | .releaseRunLease _ => some (w.setCall root { call with stage := .returned none })
      | _ => some (w.setCall root { call with stage := .listing w.files.keys [] })
  | .listing (path :: todo) found =>
      some (w.setCall root { call with stage := .listing todo (found ++ (w.lease path).toList) })
  | .listing [] found =>
      some (w.setCall root { call with stage := .displacing (toDisplace root call.call found) })
  | .displacing (lease :: todo) =>
      some ((w.releaseByRoot root lease.platform lease.id).setCall root
        { call with stage := .displacing todo })
  | .displacing [] =>
      match call.call with
      | .takeLease request =>
          if (w.owner token).isSome then none else some (w.grant root call request token)
      | _ => some (w.setCall root { call with stage := .returned none })
  | .recording result record =>
      match call.call with
      | .takeLease request =>
          some ((w.writeHolder root
            ((w.holders root).insert ⟨request.platform, request.slot⟩ record)).setCall root
              { call with stage := .returned (some result) })
      | _ => none
  | .returned _ => some { w with calls := Function.update w.calls root none }

/-- The lease section of `raiseLease`. -/
def raise (w : LeaseWorld) (r : Nat) (call : RaiseCall) : LeaseWorld :=
  let path := deviceLeasePath call.platform call.record.id
  let current := w.lease path
  let (w, result) := match leaseRaise current call.record.token w.now call.minMs with
    | .lost => (w, RaiseLeaseResult.lost current)
    | .kept lease => (w, .raised lease)
    | .raised lease expiresAt => (w.writeLease { lease with expiresAt }, .raised { lease with expiresAt })
  { w with raises := Function.update w.raises r none, answered := some ⟨call, result⟩ }

end LeaseWorld

inductive LeaseAction where
  | tick
  /-- A call takes its workspace's holder lock. -/
  | begin (root : String) (call : LeaseCall)
  | proceed (root : String) (token : String)
  /-- `raiseLease` reads its workspace's record, without the holder lock. -/
  | readRecord (r : Nat) (root : String) (key : SlotKey) (minMs : Nat)
  | raise (r : Nat)

/-- The slot a call names is one `validateDeviceSlot` lets through. -/
def LeaseCall.validSlot : LeaseCall → Bool
  | .takeLease request => isDeviceSlot request.slot
  | .releaseRunLease key => isDeviceSlot key.slot
  | .releaseWorkspaceLeases _ _ => true

def leaseStep (w : LeaseWorld) : LeaseAction → Option LeaseWorld
  | .tick => some { w with now := w.now + 1 }
  | .begin root call =>
      if (w.calls root).isSome || !call.validSlot then none
      else some (w.setCall root ⟨call, false, .begun⟩)
  | .proceed root token => (w.calls root).bind fun call => w.proceed root call token
  | .readRecord r root key minMs =>
      match (w.holders root).lookup key with
      | none => some w
      | some record => some { w with
          raises := Function.update w.raises r (some ⟨root, key.platform, record, minMs⟩) }
  | .raise r => (w.raises r).map fun call => w.raise r call

end Stim.Cli
