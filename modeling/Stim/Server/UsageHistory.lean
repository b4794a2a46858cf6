import Stim.Lib.JsString
import Stim.Lib.OrderedMap

/-!
# Usage history

`UsageRecorder` of `packages/server/src/usage-history.ts` keeps CPU and memory of environments and
devices in slots of fifteen seconds.  Slots between two payloads repeat what the earlier one held,
and what the newest one held continues to now.

The operations on numbers are parameters, as they are those of doubles.  Times are milliseconds
since the epoch.
-/

namespace Stim.UsageHistory

def INTERVAL_MS : Nat := 15000

def POINTS : Int := 40

/-- Numbers, with the sum and the two roundings of a report. -/
structure Numbers (ν : Type) where
  zero : ν
  add : ν → ν → ν
  /-- `Math.round(x * 10) / 10` -/
  roundTenth : ν → ν
  /-- `Math.round(x)` -/
  round : ν → ν

structure Reading (ν : Type) where
  cpuPercent : ν
  memoryMb : ν
  deriving DecidableEq

abbrev Slots (ν : Type) := OrderedMap Int (Reading ν)

inductive OwnerKind where
  | simulator
  | emulator
  | other
  deriving DecidableEq, Repr

structure MachineOwner (ν : Type) where
  kind : OwnerKind
  workspace : Option JsString
  slot : Option JsString
  id : Option JsString
  cpuPercent : ν
  memoryMb : ν

/-- A text that counts as true. -/
def truthy (text : Option JsString) : Option JsString := text.filter fun s => !s.isEmpty

def MachineOwner.reading {ν : Type} (owner : MachineOwner ν) : Reading ν :=
  ⟨owner.cpuPercent, owner.memoryMb⟩

/-- A device's kind and its UDID or AVD name. -/
abbrev DeviceKey := OwnerKind × JsString

structure DeviceMeta where
  workspace : Option JsString
  slot : Option JsString
  deriving DecidableEq

/-- The owners of a payload; `none` where it has no array of them. -/
abbrev Payload (ν : Type) := Option (List (MachineOwner ν))

/-- A series that a payload holds: its key, what is said of it, and its reading. -/
abbrev Entry (κ μ ν : Type) := κ × μ × Reading ν

/-! ## What a payload holds -/

section payload

variable {ν : Type} (numbers : Numbers ν)

/-- The sums of the environments after an owner. -/
def addOwner (sums : OrderedMap JsString (Reading ν)) (owner : MachineOwner ν) :
    OrderedMap JsString (Reading ν) :=
  match truthy owner.workspace with
  | none => sums
  | some workspace =>
      let sum := (sums.get workspace).getD ⟨numbers.zero, numbers.zero⟩
      sums.set workspace
        ⟨numbers.add sum.cpuPercent owner.cpuPercent, numbers.add sum.memoryMb owner.memoryMb⟩

def environmentEntries (payload : Payload ν) : List (Entry JsString Unit ν) :=
  ((payload.getD []).foldl (addOwner numbers) OrderedMap.empty).entries.map
    fun (workspace, reading) => (workspace, (), reading)

def deviceEntry (owner : MachineOwner ν) : Option (Entry DeviceKey DeviceMeta ν) :=
  if owner.kind = .other then none
  else (truthy owner.id).map fun id =>
    ((owner.kind, id), ⟨owner.workspace, truthy owner.slot⟩, owner.reading)

def deviceEntries (payload : Payload ν) : List (Entry DeviceKey DeviceMeta ν) :=
  (payload.getD []).filterMap deviceEntry

end payload

/-! ## Tracks of series -/

/-- The slots from one to another. -/
def slotsTo (first last : Int) : List Int :=
  (List.range (last + 1 - first).toNat).map fun (i : Nat) => first + i

/-- The series of environments or of devices, and the keys of the live ones. -/
structure Track (κ μ ν : Type) where
  series : OrderedMap κ (μ × Slots ν)
  live : List κ

section track

variable {κ μ ν : Type} [DecidableEq κ]

def Track.empty : Track κ μ ν := ⟨OrderedMap.empty, []⟩

/-- A live series repeats its last reading up to a slot. -/
def hold (lastSlot slot : Int) (slots : Slots ν) : Slots ν :=
  match slots.get lastSlot with
  | none => slots
  | some reading =>
      (slotsTo (max (lastSlot + 1) (slot - POINTS + 1)) slot).foldl
        (fun slots each => slots.set each reading) slots

def Track.holdThrough (lastSlot slot : Int) (track : Track κ μ ν) : Track κ μ ν :=
  { track with
    series := track.series.filterMap fun key (info, slots) =>
      some (info, if key ∈ track.live then hold lastSlot slot slots else slots) }

/-- Forgets the slots before the window, but not the last one of a live series. -/
def trim (lastSlot slot : Int) (live : Bool) (slots : Slots ν) : Slots ν :=
  slots.filterMap fun each reading =>
    if each ≤ slot - POINTS && !(live && each == lastSlot) then none else some reading

def Track.prune (lastSlot slot : Int) (track : Track κ μ ν) : Track κ μ ν :=
  { track with
    series := track.series.filterMap fun key (info, slots) =>
      let trimmed := trim lastSlot slot (decide (key ∈ track.live)) slots
      if trimmed.entries.isEmpty then none else some (info, trimmed) }

def Track.pause (track : Track κ μ ν) : Track κ μ ν := { track with live := [] }

/-- A series with a reading in a slot. -/
def Track.put (slot : Int) (track : Track κ μ ν) (entry : Entry κ μ ν) : Track κ μ ν :=
  let slots := ((track.series.get entry.1).map Prod.snd).getD OrderedMap.empty
  { series := track.series.set entry.1 (entry.2.1, slots.set slot entry.2.2)
    live := entry.1 :: track.live }

def Track.record (lastSlot slot : Int) (entries : List (Entry κ μ ν)) (track : Track κ μ ν) :
    Track κ μ ν :=
  (entries.foldl (Track.put slot) (track.holdThrough lastSlot (slot - 1)).pause).prune
    (max lastSlot slot) slot

/-- A slot's reading in a report. -/
def reported (lastSlot : Int) (live : Bool) (slots : Slots ν) (slot : Int) :
    Option (Reading ν) :=
  (slots.get slot).or (if live && decide (lastSlot < slot) then slots.get lastSlot else none)

/-- The rounded readings of a report, oldest first. -/
structure UsageSeries (ν : Type) where
  cpuPercent : List (Option ν)
  memoryMb : List (Option ν)

def points (numbers : Numbers ν) (readings : List (Option (Reading ν))) : UsageSeries ν where
  cpuPercent := readings.map fun reading => reading.map fun r => numbers.roundTenth r.cpuPercent
  memoryMb := readings.map fun reading => reading.map fun r => numbers.round r.memoryMb

def Track.report (numbers : Numbers ν) (lastSlot last : Int) (track : Track κ μ ν) :
    OrderedMap κ (μ × UsageSeries ν) :=
  track.series.filterMap fun key (info, slots) =>
    some (info, points numbers ((slotsTo (last - POINTS + 1) last).map
      (reported lastSlot (decide (key ∈ track.live)) slots)))

end track

/-! ## The recorder -/

structure UsageRecorder (ν : Type) where
  environments : Track JsString Unit ν
  devices : Track DeviceKey DeviceMeta ν
  lastSlot : Int

structure Report (ν : Type) where
  endAt : Int
  environments : OrderedMap JsString (Unit × UsageSeries ν)
  devices : OrderedMap DeviceKey (DeviceMeta × UsageSeries ν)

def slotOf (time : Nat) : Int := (time / INTERVAL_MS : Nat)

section recorder

variable {ν : Type} (numbers : Numbers ν)

def UsageRecorder.init : UsageRecorder ν := ⟨Track.empty, Track.empty, 0⟩

def UsageRecorder.record (recorder : UsageRecorder ν) (payload : Payload ν) (time : Nat) :
    UsageRecorder ν where
  environments :=
    recorder.environments.record recorder.lastSlot (slotOf time)
      (environmentEntries numbers payload)
  devices :=
    recorder.devices.record recorder.lastSlot (slotOf time) (deviceEntries payload)
  lastSlot := max recorder.lastSlot (slotOf time)

def UsageRecorder.pause (recorder : UsageRecorder ν) : UsageRecorder ν :=
  { recorder with environments := recorder.environments.pause, devices := recorder.devices.pause }

/-- What a report leaves of the recorder. -/
def UsageRecorder.prune (recorder : UsageRecorder ν) (last : Int) : UsageRecorder ν :=
  { recorder with
    environments := recorder.environments.prune recorder.lastSlot last
    devices := recorder.devices.prune recorder.lastSlot last }

/-- The last ten minutes, or `none` where no series has a reading in them. -/
def UsageRecorder.history (recorder : UsageRecorder ν) (now : Nat) : Option (Report ν) :=
  let last := slotOf now
  let pruned := recorder.prune last
  let environments := pruned.environments.report numbers pruned.lastSlot last
  let devices := pruned.devices.report numbers pruned.lastSlot last
  if environments.entries.isEmpty && devices.entries.isEmpty then none
  else some ⟨last * INTERVAL_MS, environments, devices⟩

/-- A call of the recorder. -/
inductive Call (ν : Type)
  | record (payload : Payload ν) (time : Nat)
  | pause
  | history (now : Nat)

def UsageRecorder.step (recorder : UsageRecorder ν) : Call ν → UsageRecorder ν
  | .record payload time => recorder.record numbers payload time
  | .pause => recorder.pause
  | .history now => recorder.prune (slotOf now)

def UsageRecorder.run (calls : List (Call ν)) : UsageRecorder ν :=
  calls.foldl (UsageRecorder.step numbers) UsageRecorder.init

end recorder

end Stim.UsageHistory
