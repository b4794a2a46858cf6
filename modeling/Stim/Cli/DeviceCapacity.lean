import Mathlib.Algebra.Group.Nat.Defs
import Stim.Cli.WaitQueue
import Mathlib.Data.Finset.Card

/-!
# Device capacity

The counting and the decision of `packages/stim-cli/src/engine/device-capacity.ts`:
which owned devices are live or being booted, which caps a boot must fit, and what a
run waits for.  Only the texts of the progress lines are left out.
-/

namespace Stim.Cli

inductive CappedPlatform where
  | ios
  | android
  deriving DecidableEq, Repr

/-- What a boot counts under: the key of an existing device, or `uncreatedDeviceKey()`,
which is unique to its run. -/
inductive DeviceName where
  | created (key : String)
  | uncreated (run : Nat)
  deriving DecidableEq, Repr

/-- `deviceKey(platform, key)`. -/
structure DeviceKey where
  platform : CappedPlatform
  name : DeviceName
  deriving DecidableEq, Repr

/-! ## Inventories -/

structure SimRecord where
  udid : String
  name : String
  state : String

inductive AdbKind where
  | emulator
  | physical
  deriving DecidableEq

structure UnhealthyDevice where
  kind : AdbKind
  consolePort : Option Nat

structure AdbDevices where
  emulators : List (Option Nat)
  unhealthy : List UnhealthyDevice

structure AndroidRecord where
  owned : Bool
  avdName : Option String
  consolePort : Option Nat

/-- The recorded emulator of one device slot. -/
structure PlatformRecords where
  android : Option AndroidRecord

structure ProjectRecord where
  platforms : PlatformRecords
  deviceSlots : List (String × PlatformRecords)

structure DeviceInventory where
  sims : List SimRecord
  adb : AdbDevices
  projects : List ProjectRecord
  booting : List DeviceKey

def projectDeviceSlots (project : ProjectRecord) : List PlatformRecords :=
  project.platforms :: project.deviceSlots.map Prod.snd

def liveEmulatorPorts (adb : AdbDevices) : List (Option Nat) :=
  adb.emulators ++ (adb.unhealthy.filter fun entry => entry.kind = .emulator).map
    UnhealthyDevice.consolePort

def LIVE_SIM_STATES : List String := ["Booted", "Booting"]

/-- The live owned simulators, but for the excluded ones. -/
def liveSims (sims : List SimRecord) (exclude : List DeviceKey) : List DeviceKey :=
  (sims.filter fun sim => sim.name.startsWith "stim-" && LIVE_SIM_STATES.contains sim.state &&
    !exclude.contains ⟨.ios, .created sim.udid⟩).map fun sim => ⟨.ios, .created sim.udid⟩

/-- The recorded owned emulators whose console port is listed. -/
def liveEmulators (ports : List (Option Nat)) (projects : List ProjectRecord) :
    List DeviceKey :=
  (projects.flatMap projectDeviceSlots).filterMap fun platforms => do
    let android ← platforms.android
    let avdName ← android.avdName
    let port ← android.consolePort
    if android.owned ∧ avdName ≠ "" ∧ some port ∈ ports then
      some ⟨.android, .created avdName⟩
    else none

def liveOwnedDeviceKeys (sims : List SimRecord) (adbEmulators : List (Option Nat))
    (projects : List ProjectRecord) (booting exclude : List DeviceKey) : Finset DeviceKey :=
  (liveSims sims exclude ++ liveEmulators adbEmulators projects ++
    booting.filter fun device => !exclude.contains device).toFinset

def inventoryKeys (inventory : DeviceInventory) : Finset DeviceKey :=
  liveOwnedDeviceKeys inventory.sims (liveEmulatorPorts inventory.adb) inventory.projects
    inventory.booting []

/-- The owned devices an inventory lists as live. -/
def liveKeys (inventory : DeviceInventory) : Finset DeviceKey :=
  (liveSims inventory.sims [] ++
    liveEmulators (liveEmulatorPorts inventory.adb) inventory.projects).toFinset

theorem inventoryKeys_eq (inventory : DeviceInventory) :
    inventoryKeys inventory = liveKeys inventory ∪ inventory.booting.toFinset := by
  ext d
  simp [inventoryKeys, liveOwnedDeviceKeys, liveKeys]

/-! ## Caps -/

/-- The caps in force. -/
structure Caps where
  max : Nat
  platformMax : CappedPlatform → Nat
  /-- `max` was derived because `concurrency.maxDevices` is unset. -/
  derived : Bool

structure DeviceLimit where
  setting : String
  noun : String
  count : Nat
  max : Nat
  platform : Option CappedPlatform
  derived : Bool
  deriving DecidableEq

def capSetting : CappedPlatform → String
  | .ios => "concurrency.maxIosDevices"
  | .android => "concurrency.maxAndroidDevices"

def capNoun : CappedPlatform → String
  | .ios => "iOS simulator"
  | .android => "Android emulator"

def platformCount (keys : Finset DeviceKey) (platform : CappedPlatform) : Nat :=
  (keys.filter fun key => key.platform = platform).card

/-- The caps a boot on `platform` must fit, the platform's own first. -/
def deviceLimits (keys : Finset DeviceKey) (platform : CappedPlatform) (caps : Caps) :
    List DeviceLimit :=
  (if 0 < caps.platformMax platform then
    [{ setting := capSetting platform
       noun := capNoun platform
       count := platformCount keys platform
       max := caps.platformMax platform
       platform := some platform
       derived := false }] else []) ++
  (if 0 < caps.max then
    [{ setting := "concurrency.maxDevices"
       noun := "device"
       count := keys.card
       max := caps.max
       platform := none
       derived := caps.derived }] else [])

/-- Whether a waiter is held back by its own platform's cap. -/
def platformWalled (keys : Finset DeviceKey) (waiter : WaitTicket DeviceKey)
    (platformMax : CappedPlatform → Nat) : Bool :=
  let cap := platformMax waiter.device.platform
  decide (0 < cap ∧ cap ≤ platformCount keys waiter.device.platform)

/-! ## Decisions -/

structure Memory where
  level : Option String
  availableBytes : Option Nat

inductive MemoryHold where
  | critical
  | warning (availableBytes : Nat)
  deriving DecidableEq

def LOW_MEMORY_FOR_BOOT_BYTES : Nat := 2 * 1024 ^ 3

def memoryHold (memory : Memory) : Option MemoryHold :=
  if memory.level = some "critical" then some .critical
  else if memory.level = some "warning" then
    memory.availableBytes.bind fun available =>
      if available < LOW_MEMORY_FOR_BOOT_BYTES then some (.warning available) else none
  else none

def BOOTS_IN_FLIGHT : Nat := 2

/-- `readInventoryAsync`: an inventory, or why the devices could not be counted. -/
abbrev InventoryRead := Except String DeviceInventory

/-- What a run waits for. -/
inductive Hold where
  | count (message : String)
  | slot (limit : DeviceLimit)
  | boots (inFlight : Nat)
  | turn (limit : Option DeviceLimit)
  | memory (hold : MemoryHold)

/-- The device is a live simulator, or some run is booting it: it is let in as it is. -/
def alreadyUp (own : DeviceKey) (inventory : DeviceInventory) : Bool :=
  (decide (own.platform = .ios) && decide (own ∈ inventoryKeys inventory)) ||
    inventory.booting.contains own

/-- `decide`: what the run waits for, or `none` when it may boot. -/
def decideBoot (caps : Caps) (own : DeviceKey) (aheadOf : List (WaitTicket DeviceKey))
    (memory : Option Memory) (read : InventoryRead) : Option Hold :=
  match read with
  | .error message => some (.count message)
  | .ok inventory =>
      if alreadyUp own inventory then none
      else
        let keys := (inventoryKeys inventory).erase own
        let limits := deviceLimits keys own.platform caps
        let turn := aheadOf.all fun waiter => platformWalled keys waiter caps.platformMax
        let full := limits.find? fun limit => decide (limit.max ≤ limit.count)
        match full with
        | some full => some (.slot full)
        | none =>
            let booting := inventory.booting.filter fun entry => entry ≠ own
            if BOOTS_IN_FLIGHT ≤ booting.length then some (.boots booting.length)
            else if !turn then some (.turn limits.head?)
            else (memory.bind memoryHold).map .memory

/-! ## What an admission has checked -/

/-- A boot that was let in and was not already up. -/
theorem decideBoot_eq_none {caps : Caps} {own : DeviceKey}
    {aheadOf : List (WaitTicket DeviceKey)} {memory : Option Memory} {read : InventoryRead}
    (h : decideBoot caps own aheadOf memory read = none) :
    ∃ inventory, read = .ok inventory ∧ (alreadyUp own inventory = false →
      (∀ limit ∈ deviceLimits ((inventoryKeys inventory).erase own) own.platform caps,
        limit.count < limit.max) ∧
      (inventory.booting.filter fun entry => entry ≠ own).length < BOOTS_IN_FLIGHT ∧
      ∀ waiter ∈ aheadOf,
        platformWalled ((inventoryKeys inventory).erase own) waiter caps.platformMax = true) := by
  cases read with
  | error message => cases h
  | ok inventory =>
      refine ⟨inventory, rfl, fun hUp => ?_⟩
      simp only [decideBoot, hUp, Bool.false_eq_true, if_false] at h
      split at h
      · cases h
      · rename_i hFull
        split at h
        · cases h
        · rename_i hBoots
          split at h
          · cases h
          · rename_i hTurn
            refine ⟨?_, Nat.not_le.mp hBoots, ?_⟩
            · intro limit hLimit
              have hNot := List.find?_eq_none.mp hFull limit hLimit
              simpa using hNot
            · simpa using hTurn

end Stim.Cli
