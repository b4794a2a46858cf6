import Stim.Lib.IsoDate
import Stim.Lib.JsNumber.Whole
import Stim.Lib.Json.Members

/-!
# Run statistics

The file that counts the runs of each project and of the machine, as its writers read it, change it
and write it back under the config lock.  An object is its own members in their order; where the
code asks an object for a name, what the object inherits is `OBJECT_PROTOTYPE`.  Counts and sums are
whole numbers, added exactly, as doubles are below `2 ^ 53`.
-/

namespace Stim.RunStats

open Json (member)

/-! ## Records -/

inductive StatsPlatform where
  | ios
  | android
  deriving DecidableEq

inductive RunOutcomeKind where
  | hit
  | cold
  deriving DecidableEq

/-- Where a compiling build ran: here, on a remote machine, or here after offloading it failed. -/
inductive PlacementDecision where
  | here
  | offloaded
  | fellBack
  deriving DecidableEq

/-- `Partial<Record<StatsPlatform, α>>` -/
structure ByPlatform (α : Type) where
  ios : Option α
  android : Option α
  deriving DecidableEq

namespace ByPlatform

variable {α : Type}

def empty : ByPlatform α := ⟨none, none⟩

def get (m : ByPlatform α) : StatsPlatform → Option α
  | .ios => m.ios
  | .android => m.android

def isEmpty (m : ByPlatform α) : Bool := m.ios.isNone && m.android.isNone

def set (m : ByPlatform α) (platform : StatsPlatform) (value : α) : ByPlatform α :=
  match platform with
  | .ios => { m with ios := some value }
  | .android => { m with android := some value }

end ByPlatform

structure StatsBucket where
  runs : Nat
  failed : Nat
  hits : Nat
  misses : Nat
  coldRuns : Nat
  coldRunMs : Nat
  coldCleanupMs : Option Nat
  hitRuns : Nat
  hitRunMs : Nat
  hitCleanupMs : Option Nat
  timeSavedMs : Nat
  firstRunAt : JsString
  lastRunAt : JsString
  lastColdBuildMs : Option Nat
  lastPodsMs : Option Nat
  offloadedRuns : Option Nat
  offloadedRunMs : Option Nat
  offloadedCleanupMs : Option Nat
  lastOffloadHost : Option JsString
  deriving DecidableEq

abbrev StatsScope := ByPlatform StatsBucket

structure RunSample where
  at' : JsString
  durationMs : Nat
  phases : OrderedMap JsString Nat
  deviceSetup : Option Bool

/-- The samples of each outcome; a list without samples is not there. -/
structure RunLists where
  hit : List RunSample
  cold : List RunSample

namespace RunLists

def get (lists : RunLists) : RunOutcomeKind → List RunSample
  | .hit => lists.hit
  | .cold => lists.cold

def set (lists : RunLists) (outcome : RunOutcomeKind) (samples : List RunSample) : RunLists :=
  match outcome with
  | .hit => { lists with hit := samples }
  | .cold => { lists with cold := samples }

end RunLists

abbrev RunHistory := ByPlatform RunLists

structure StatsPlacement where
  at' : JsString
  project : JsString
  platform : StatsPlatform
  decision : PlacementDecision
  reason : JsString
  machine : Option JsString
  buildMs : Option Nat
  slotWaitMs : Option Nat
  deviceSlotWaitMs : Option Nat
  /-- The project's last cold build here before this run. -/
  localEstimateMs : Option Nat
  failed : Bool

structure StatsCapacityRefusal where
  at' : JsString
  platform : StatsPlatform
  max : Nat
  workspace : JsString

structure StatsCapacityWait where
  at' : JsString
  reclaimed : Option Nat
  platform : StatsPlatform
  ms : Nat
  max : Nat
  workspace : JsString

/-- A member that is added to: not there, `NaN`, or a whole number. -/
inductive Total where
  | absent
  | nan
  | whole (z : Int)
  deriving DecidableEq

structure BuildMachineTotals where
  offloaded : Total
  offloadedMs : Total
  /-- Sum of local estimate minus offloaded build time; can be negative. -/
  savedMs : Total
  fallbacks : Total
  lastOffloadAt : Option JsString
  lastFallbackAt : Option JsString
  deriving DecidableEq

/-- A record without entries in a part has no member for that part. -/
structure StatsRecord where
  machine : StatsScope
  projects : OrderedMap JsString StatsScope
  history : OrderedMap JsString RunHistory
  placements : List StatsPlacement
  capacityRefusals : List StatsCapacityRefusal
  capacityWaits : List StatsCapacityWait
  buildMachines : OrderedMap JsString BuildMachineTotals

abbrev STATS_VERSION : Nat := 1

abbrev HISTORY_LIMIT : Nat := 10

abbrev CAPACITY_REFUSAL_LIMIT : Nat := 50

abbrev CAPACITY_REFUSAL_MAX_AGE_MS : Nat := 7 * 24 * 60 * 60000

abbrev PLACEMENT_LIMIT : Nat := 100

abbrev PLACEMENT_MAX_AGE_MS : Nat := 7 * 24 * 60 * 60000

def emptyStats : StatsRecord where
  machine := .empty
  projects := .empty
  history := .empty
  placements := []
  capacityRefusals := []
  capacityWaits := []
  buildMachines := .empty

/-! ## Objects and numbers -/

/-- `__proto__`, under which an assignment changes what an object inherits. -/
def PROTO : JsString := JsString.ofString "__proto__"

/-- The names that every object inherits. -/
def OBJECT_PROTOTYPE : List JsString :=
  ["constructor", "__defineGetter__", "__defineSetter__", "hasOwnProperty", "__lookupGetter__",
    "__lookupSetter__", "isPrototypeOf", "propertyIsEnumerable", "toString", "valueOf",
    "__proto__", "toLocaleString"].map JsString.ofString

/-- `object[name] = value` -/
def assign {α : Type} (object : OrderedMap JsString α) (name : JsString) (value : α) :
    OrderedMap JsString α :=
  if name = PROTO then object else object.set name value

/-- The values that are there, each assigned under its name. -/
def assignAll {α : Type} (values : List (JsString × Option α)) : OrderedMap JsString α :=
  values.foldl (fun out entry => (entry.2.map (assign out entry.1)).getD out) .empty

/-- `Math.round` -/
def roundHalfUp (q : ℚ) : Int := (q + 1 / 2).floor

def wholeMs : JsNumber → Nat
  | .finite q => if 0 < q then (roundHalfUp q).toNat else 0
  | _ => 0

/-- `wholeMs` of a member that may be missing. -/
def wholeMsOf (value : Option JsNumber) : Nat := (value.map wholeMs).getD 0

def positive (n : Nat) : Option Nat := if 0 < n then some n else none

/-- `a - b` -/
def minus (a b : Nat) : Int :=
  match JsNumber.round ((a : ℚ) - b) with
  | .finite q => q.floor
  | _ => 0

def Total.plus : Total → Int → Total
  | .whole z, d => .whole (z + d)
  | _, _ => .nan

/-- A name or text that is there and not empty. -/
def nonEmpty (text : Option JsString) : Option JsString := text.filter (· ≠ [])

/-- `list.slice(-limit)` -/
def lastOf {α : Type} (limit : Nat) (list : List α) : List α := list.drop (list.length - limit)

def phaseMs : JsNumber → Option Nat
  | .finite q => if 0 ≤ q then some (roundHalfUp q).toNat else none
  | _ => none

def wholePhases (phases : List (JsString × JsNumber)) : OrderedMap JsString Nat :=
  assignAll (phases.map fun entry => (entry.1, phaseMs entry.2))

def isSetup (sample : RunSample) : Bool := sample.deviceSetup = some true

/-- The newest samples first, with how many of each kind were kept before. -/
def keepSamples : List RunSample → Nat → Nat → List RunSample
  | [], _, _ => []
  | sample :: rest, setup, other =>
      if isSetup sample then
        if HISTORY_LIMIT ≤ setup then keepSamples rest setup other
        else sample :: keepSamples rest (setup + 1) other
      else
        if HISTORY_LIMIT ≤ other then keepSamples rest setup other
        else sample :: keepSamples rest setup (other + 1)

def trimSamples (samples : List RunSample) : List RunSample :=
  (keepSamples samples.reverse 0 0).reverse

section

variable (otherForms : JsString → Option Int)

def trimCapacity {α : Type} (time : α → JsString) (events : List α) (now : Nat) : List α :=
  let parse := fun event => IsoDate.dateParse otherForms (time event)
  let recent := events.filter fun event =>
    (parse event).any fun t : Int => t ≤ (now : Int) ∧ (now : Int) - t ≤ CAPACITY_REFUSAL_MAX_AGE_MS
  lastOf CAPACITY_REFUSAL_LIMIT
    (recent.mergeSort fun a b => (parse a).getD 0 ≤ (parse b).getD 0)

def trimCapacityRefusals (events : List StatsCapacityRefusal) (now : Nat) :
    List StatsCapacityRefusal :=
  trimCapacity otherForms StatsCapacityRefusal.at' events now

def trimCapacityWaits (events : List StatsCapacityWait) (now : Nat) : List StatsCapacityWait :=
  trimCapacity otherForms StatsCapacityWait.at' events now

def trimPlacements (placements : List StatsPlacement) (now : Nat) : List StatsPlacement :=
  lastOf PLACEMENT_LIMIT (placements.filter fun each =>
    (IsoDate.dateParse otherForms each.at').any fun t : Int => (now : Int) - t ≤ PLACEMENT_MAX_AGE_MS)

end

/-! ## A run -/

/-- `CacheHitLevel`; a miss is `false` in the source. -/
inductive CacheHitLevel where
  | local'
  | remote
  | miss
  deriving DecidableEq

structure RunPlacement where
  decision : PlacementDecision
  reason : JsString
  machine : Option JsString
  slotWaitMs : Option JsNumber
  deviceSlotWaitMs : Option JsNumber
  /-- The offloaded build's total time; a build here takes the run's compile time instead. -/
  buildMs : Option JsNumber

structure StatsRun where
  platform : StatsPlatform
  projectKey : JsString
  failed : Bool
  cacheHit : CacheHitLevel
  waitedForBuild : Bool
  durationMs : JsNumber
  offloadedTo : Option JsString
  coldBuildMs : Option JsNumber
  podsMs : Option JsNumber
  phases : Option (OrderedMap JsString JsNumber)
  cleanupMs : Option JsNumber
  deviceSetup : Option Bool
  placement : Option RunPlacement

/-- What one run adds to its buckets. -/
structure RunMs where
  durationMs : Nat
  coldBuildMs : Nat
  podsMs : Nat
  cleanupMs : Nat

def isHit : CacheHitLevel → Bool
  | .local' | .remote => true
  | .miss => false

def runMs (run : StatsRun) : RunMs where
  durationMs := wholeMs run.durationMs
  coldBuildMs := wholeMsOf run.coldBuildMs
  podsMs := wholeMsOf run.podsMs
  cleanupMs := min (wholeMs run.durationMs)
    (wholeMsOf (run.cleanupMs.or (run.phases.bind (·.get (JsString.ofString "cleanup")))))

def creditMs (bucket : Option StatsBucket) (run : StatsRun) (durationMs : Nat) : Nat :=
  if run.failed || !isHit run.cacheHit || run.waitedForBuild then 0
  else match bucket with
    | none => 0
    | some bucket =>
        if bucket.coldRuns = 0 then 0
        else
          let cold := ((bucket.coldRunMs : ℚ) - (bucket.coldCleanupMs.getD 0 : ℚ)) / bucket.coldRuns
          match JsNumber.round cold with
          | .finite q => (roundHalfUp q - durationMs).toNat
          | _ => 0

/-- `if (ms > 0) next.sum = (next.sum ?? 0) + ms` -/
def addPositive (sum : Option Nat) (ms : Nat) : Option Nat :=
  if 0 < ms then some (sum.getD 0 + ms) else sum

def newBucket (at' : JsString) : StatsBucket where
  runs := 0
  failed := 0
  hits := 0
  misses := 0
  coldRuns := 0
  coldRunMs := 0
  coldCleanupMs := none
  hitRuns := 0
  hitRunMs := 0
  hitCleanupMs := none
  timeSavedMs := 0
  firstRunAt := at'
  lastRunAt := at'
  lastColdBuildMs := none
  lastPodsMs := none
  offloadedRuns := none
  offloadedRunMs := none
  offloadedCleanupMs := none
  lastOffloadHost := none

def applyRun (bucket : Option StatsBucket) (run : StatsRun) (at' : JsString) (credit : Nat) :
    StatsBucket :=
  let ms := runMs run
  let bucket := bucket.getD (newBucket at')
  let next := { bucket with
    runs := bucket.runs + 1
    lastRunAt := at'
    lastColdBuildMs := (positive ms.coldBuildMs).or bucket.lastColdBuildMs
    lastPodsMs := (positive ms.podsMs).or bucket.lastPodsMs }
  if run.failed then { next with failed := next.failed + 1 }
  else if isHit run.cacheHit then
    let next := { next with hits := next.hits + 1 }
    if run.waitedForBuild then next
    else { next with
      hitRuns := next.hitRuns + 1
      hitRunMs := next.hitRunMs + ms.durationMs
      hitCleanupMs := addPositive next.hitCleanupMs ms.cleanupMs
      timeSavedMs := next.timeSavedMs + credit }
  else
    let next := { next with misses := next.misses + 1 }
    match nonEmpty run.offloadedTo with
    | some host => { next with
        offloadedRuns := some (next.offloadedRuns.getD 0 + 1)
        offloadedRunMs := some (next.offloadedRunMs.getD 0 + ms.durationMs)
        offloadedCleanupMs := addPositive next.offloadedCleanupMs ms.cleanupMs
        lastOffloadHost := some host }
    | none => { next with
        coldRuns := next.coldRuns + 1
        coldRunMs := next.coldRunMs + ms.durationMs
        coldCleanupMs := addPositive next.coldCleanupMs ms.cleanupMs }

def buildPlacement (run : StatsRun) (placement : RunPlacement) (before : Option StatsBucket)
    (at' : JsString) : StatsPlacement where
  at' := at'
  project := run.projectKey
  platform := run.platform
  decision := placement.decision
  reason := placement.reason
  machine := nonEmpty placement.machine
  buildMs := positive (wholeMsOf
    (if placement.decision = .offloaded then placement.buildMs else run.coldBuildMs))
  slotWaitMs := positive (wholeMsOf placement.slotWaitMs)
  deviceSlotWaitMs := positive (wholeMsOf placement.deviceSlotWaitMs)
  localEstimateMs := positive ((before.bind StatsBucket.lastColdBuildMs).getD 0)
  failed := run.failed

def newTotals : BuildMachineTotals where
  offloaded := .whole 0
  offloadedMs := .whole 0
  savedMs := .whole 0
  fallbacks := .whole 0
  lastOffloadAt := none
  lastFallbackAt := none

/-- The copy of a member that every object inherits has no members. -/
def inheritedTotals : BuildMachineTotals where
  offloaded := .absent
  offloadedMs := .absent
  savedMs := .absent
  fallbacks := .absent
  lastOffloadAt := none
  lastFallbackAt := none

/-- `buildMachines?.[machine]`; a record without totals has no object to ask. -/
def totalsOf (buildMachines : OrderedMap JsString BuildMachineTotals) (machine : JsString) :
    Option BuildMachineTotals :=
  match buildMachines.get machine with
  | some totals => some totals
  | none =>
      if buildMachines.entries ≠ [] ∧ machine ∈ OBJECT_PROTOTYPE then some inheritedTotals
      else none

def applyPlacement (totals : Option BuildMachineTotals) (placement : StatsPlacement) :
    BuildMachineTotals :=
  let next := totals.getD newTotals
  if placement.decision = .fellBack then
    { next with
      fallbacks := next.fallbacks.plus 1
      lastFallbackAt := some placement.at' }
  else
    { next with
      offloaded := next.offloaded.plus 1
      offloadedMs := next.offloadedMs.plus (placement.buildMs.getD 0)
      savedMs := match placement.localEstimateMs, placement.buildMs with
        | some localEstimateMs, some buildMs => next.savedMs.plus (minus localEstimateMs buildMs)
        | _, _ => next.savedMs
      lastOffloadAt := some placement.at' }

/-! ## Updates -/

def addSample (history : OrderedMap JsString RunHistory) (run : StatsRun)
    (phases : OrderedMap JsString JsNumber) (at' : JsString) : OrderedMap JsString RunHistory :=
  let outcome := if isHit run.cacheHit then RunOutcomeKind.hit else .cold
  let project := (history.get run.projectKey).getD .empty
  let lists := (project.get run.platform).getD ⟨[], []⟩
  let sample : RunSample := {
    at' := at'
    durationMs := wholeMs run.durationMs
    phases := wholePhases phases.entries
    deviceSetup := run.deviceSetup }
  let lists := lists.set outcome (trimSamples (lists.get outcome ++ [sample]))
  assign history run.projectKey (project.set run.platform lists)

/-- The totals of build machines after a run with a placement. -/
def updateMachines (buildMachines : OrderedMap JsString BuildMachineTotals)
    (placement : StatsPlacement) : OrderedMap JsString BuildMachineTotals :=
  match placement.machine with
  | some machine =>
      if placement.decision = .here then buildMachines
      else buildMachines.set machine (applyPlacement (totalsOf buildMachines machine) placement)
  | none => buildMachines

section

variable (otherForms : JsString → Option Int)

def updateStats (record : StatsRecord) (run : StatsRun) (now : Nat) : StatsRecord :=
  let at' := IsoDate.toISOString now
  let ms := runMs run
  let scope := (record.projects.get run.projectKey).getD .empty
  let before := scope.get run.platform
  let credit := creditMs before run (ms.durationMs - ms.cleanupMs)
  let placement := run.placement.map fun placement => buildPlacement run placement before at'
  { machine := record.machine.set run.platform
      (applyRun (record.machine.get run.platform) run at' credit)
    projects := assign record.projects run.projectKey
      (scope.set run.platform (applyRun before run at' credit))
    history := match run.phases with
      | some phases =>
          if run.failed || run.waitedForBuild || (nonEmpty run.offloadedTo).isSome then
            record.history
          else addSample record.history run phases at'
      | none => record.history
    placements := match placement with
      | some placement => trimPlacements otherForms (record.placements ++ [placement]) now
      | none => record.placements
    capacityRefusals := trimCapacityRefusals otherForms record.capacityRefusals now
    capacityWaits := trimCapacityWaits otherForms record.capacityWaits now
    buildMachines := match placement with
      | some placement => updateMachines record.buildMachines placement
      | none => record.buildMachines }

end

/-! ## Reading a file -/

mutual

/-- `Number(value)` -/
def numberOf : Json → JsNumber
  | .null => .finite 0
  | .bool b => .finite (if b then 1 else 0)
  | .number token => JsNumber.toNumber token
  | .string s => JsNumber.toNumber s
  | .array elements => numberOfElements elements
  | .object _ => .nan

/-- `Number` of an array, which is that of its text: elements joined by commas. -/
def numberOfElements : List Json → JsNumber
  | [] => .finite 0
  | [.bool _] => .nan
  | [v] => numberOf v
  | _ :: _ :: _ => .nan

end

/-- `wholeMs` of a value of the file; a missing one is `NaN`. -/
def count (value : Option Json) : Nat := (value.map fun v => wholeMs (numberOf v)).getD 0

/-- The members of an object; `none` for every other value. -/
def objectOf : Option Json → Option (List (JsString × Json))
  | some (.object members) => some members
  | _ => none

def arrayOf : Option Json → Option (List Json)
  | some (.array elements) => some elements
  | _ => none

def stringOf : Option Json → Option JsString
  | some (.string s) => some s
  | _ => none

def boolOf : Option Json → Option Bool
  | some (.bool b) => some b
  | _ => none

def numberValue : Option Json → JsNumber
  | some (.number token) => JsNumber.toNumber token
  | _ => .nan

def timestamp (value : Option Json) : JsString :=
  (nonEmpty (stringOf value)).getD (IsoDate.toISOString 0)

def platformOf (value : Option Json) : Option StatsPlatform :=
  if stringOf value = some (JsString.ofString "ios") then some .ios
  else if stringOf value = some (JsString.ofString "android") then some .android
  else none

def decisionOf (value : Option Json) : Option PlacementDecision :=
  if stringOf value = some (JsString.ofString "here") then some .here
  else if stringOf value = some (JsString.ofString "offloaded") then some .offloaded
  else if stringOf value = some (JsString.ofString "fell-back") then some .fellBack
  else none

/-- `Number.isInteger(value) && value > 0` of a value of the file. -/
def positiveInteger (value : Option Json) : Option Nat :=
  match JsNumber.integer (numberValue value) with
  | some z => if 0 < z then some z.toNat else none
  | none => none

def normalizeBucket (members : List (JsString × Json)) : StatsBucket where
  runs := count (member members "runs")
  failed := count (member members "failed")
  hits := count (member members "hits")
  misses := count (member members "misses")
  coldRuns := count (member members "coldRuns")
  coldRunMs := count (member members "coldRunMs")
  hitRuns := count (member members "hitRuns")
  hitRunMs := count (member members "hitRunMs")
  coldCleanupMs := positive (count (member members "coldCleanupMs"))
  hitCleanupMs := positive (count (member members "hitCleanupMs"))
  offloadedCleanupMs := positive (count (member members "offloadedCleanupMs"))
  timeSavedMs := count (member members "timeSavedMs")
  firstRunAt := timestamp (member members "firstRunAt")
  lastRunAt := timestamp (member members "lastRunAt")
  lastColdBuildMs := positive (count (member members "lastColdBuildMs"))
  lastPodsMs := positive (count (member members "lastPodsMs"))
  offloadedRuns := positive (count (member members "offloadedRuns"))
  offloadedRunMs :=
    if 0 < count (member members "offloadedRuns") then
      some (count (member members "offloadedRunMs"))
    else none
  lastOffloadHost := stringOf (member members "lastOffloadHost")

def normalizeScope (scope : Option Json) : StatsScope :=
  match objectOf scope with
  | none => .empty
  | some members =>
      { ios := (objectOf (member members "ios")).map normalizeBucket
        android := (objectOf (member members "android")).map normalizeBucket }

/-- The members of an object with their numbers. -/
def numbersOf (value : Option Json) : List (JsString × JsNumber) :=
  match objectOf value with
  | none => []
  | some members => (OrderedMap.ofList members).entries.map fun m => (m.1, numberOf m.2)

def normalizeSample (value : Json) : Option RunSample :=
  match objectOf (some value) with
  | none => none
  | some members =>
      if count (member members "durationMs") = 0 then none
      else some {
        at' := timestamp (member members "at")
        durationMs := count (member members "durationMs")
        phases := wholePhases (numbersOf (member members "phases"))
        deviceSetup := boolOf (member members "deviceSetup") }

def normalizeSamples (samples : Option Json) : List RunSample :=
  trimSamples (((arrayOf samples).getD []).filterMap normalizeSample)

def normalizeLists (lists : Option Json) : Option RunLists :=
  match objectOf lists with
  | none => none
  | some members =>
      let hit := normalizeSamples (member members "hit")
      let cold := normalizeSamples (member members "cold")
      if hit = [] ∧ cold = [] then none else some ⟨hit, cold⟩

def normalizeHistory (scope : Json) : RunHistory :=
  match objectOf (some scope) with
  | none => .empty
  | some members =>
      { ios := normalizeLists (member members "ios")
        android := normalizeLists (member members "android") }

def normalizePlacement (value : Json) : Option StatsPlacement := do
  let members ← objectOf (some value)
  let decision ← decisionOf (member members "decision")
  let platform ← platformOf (member members "platform")
  let reason ← stringOf (member members "reason")
  let project ← stringOf (member members "project")
  some {
    at' := timestamp (member members "at")
    project := project
    platform := platform
    decision := decision
    reason := reason
    machine := nonEmpty (stringOf (member members "machine"))
    buildMs := positive (count (member members "buildMs"))
    slotWaitMs := positive (count (member members "slotWaitMs"))
    deviceSlotWaitMs := positive (count (member members "deviceSlotWaitMs"))
    localEstimateMs := positive (count (member members "localEstimateMs"))
    failed := boolOf (member members "failed") = some true }

def normalizeMachineTotals (members : List (JsString × Json)) : BuildMachineTotals where
  offloaded := .whole (count (member members "offloaded"))
  offloadedMs := .whole (count (member members "offloadedMs"))
  savedMs := match (member members "savedMs").map numberOf with
    | some (.finite q) => .whole (roundHalfUp q)
    | _ => .whole 0
  fallbacks := .whole (count (member members "fallbacks"))
  lastOffloadAt := stringOf (member members "lastOffloadAt")
  lastFallbackAt := stringOf (member members "lastFallbackAt")

section

variable (otherForms : JsString → Option Int)

/-- What a refusal and a wait have in common. -/
def normalizeCapacityEvent (members : List (JsString × Json)) : Option StatsCapacityRefusal := do
  let platform ← platformOf (member members "platform")
  let text ← stringOf (member members "at")
  let t ← IsoDate.dateParse otherForms text
  let max ← positiveInteger (member members "max")
  let workspace ← nonEmpty (stringOf (member members "workspace"))
  some { at' := IsoDate.toISOString t, platform := platform, max := max, workspace := workspace }

def normalizeCapacityRefusal (value : Json) : Option StatsCapacityRefusal := do
  let members ← objectOf (some value)
  if stringOf (member members "kind") = some (JsString.ofString "device") then
    normalizeCapacityEvent otherForms members
  else none

def normalizeCapacityWait (value : Json) : Option StatsCapacityWait := do
  let members ← objectOf (some value)
  if stringOf (member members "kind") = some (JsString.ofString "device-wait") then
    let refusal ← normalizeCapacityEvent otherForms members
    match numberValue (member members "ms") with
    | .finite ms =>
        if 0 ≤ ms then
          some {
            at' := refusal.at'
            platform := refusal.platform
            max := refusal.max
            workspace := refusal.workspace
            ms := (roundHalfUp ms).toNat
            reclaimed := positiveInteger (member members "reclaimed") }
        else none
    | _ => none
  else none

/-- The members of an object that are kept, in its order. -/
def assignEach {α : Type} (value : Option Json) (f : Json → Option α) : OrderedMap JsString α :=
  match objectOf value with
  | none => .empty
  | some members =>
      assignAll ((OrderedMap.ofList members).entries.map fun entry => (entry.1, f entry.2))

def normalize (members : List (JsString × Json)) : StatsRecord where
  machine := normalizeScope (member members "machine")
  projects := assignEach (member members "projects") fun scope => some (normalizeScope (some scope))
  history := assignEach (member members "history") fun scope =>
    if (normalizeHistory scope).isEmpty then none else some (normalizeHistory scope)
  placements := ((arrayOf (member members "placements")).getD []).filterMap normalizePlacement
  capacityRefusals := ((arrayOf (member members "capacityRefusals")).getD []).filterMap
    (normalizeCapacityRefusal otherForms)
  capacityWaits := ((arrayOf (member members "capacityWaits")).getD []).filterMap
    (normalizeCapacityWait otherForms)
  buildMachines := assignEach (member members "buildMachines") fun totals =>
    (objectOf (some totals)).map normalizeMachineTotals

/-- What `decodeStats` returns: a record, the version of a newer one, or neither. -/
inductive DecodedStats where
  | unreadable
  | newer (version : Int)
  | record (record : StatsRecord)

def decodeStats (text : JsString) : DecodedStats :=
  match Json.parse text with
  | some (.object members) =>
      match JsNumber.integer (numberValue (member members "version")) with
      | none => .unreadable
      | some version =>
          if STATS_VERSION < version then .newer version
          else .record (normalize otherForms members)
  | _ => .unreadable

end

/-! ## Writing a file -/

/-- An object of the members that are there. -/
def objectJson (members : List (String × Option Json)) : Json := .object (Json.present members)

def numberJson (n : Nat) : Json := .number (JsNumber.wholeText n)

def textJson (text : String) : Json := .string (JsString.ofString text)

def mapJson {α : Type} (f : α → Json) (m : OrderedMap JsString α) : Json :=
  .object (m.entries.map fun entry => (entry.1, f entry.2))

/-- A list that is a member only with elements. -/
def listJson {α : Type} (f : α → Json) (list : List α) : Option Json :=
  if list = [] then none else some (.array (list.map f))

/-- A map that is a member only with entries. -/
def entriesJson {α : Type} (f : α → Json) (m : OrderedMap JsString α) : Option Json :=
  if m.entries = [] then none else some (mapJson f m)

def StatsPlatform.json : StatsPlatform → Json
  | .ios => textJson "ios"
  | .android => textJson "android"

def PlacementDecision.json : PlacementDecision → Json
  | .here => textJson "here"
  | .offloaded => textJson "offloaded"
  | .fellBack => textJson "fell-back"

def ByPlatform.json {α : Type} (f : α → Json) (m : ByPlatform α) : Json :=
  objectJson [("ios", m.ios.map f), ("android", m.android.map f)]

def StatsBucket.members (bucket : StatsBucket) : List (String × Option Json) :=
  [("runs", some (numberJson bucket.runs)), ("failed", some (numberJson bucket.failed)),
    ("hits", some (numberJson bucket.hits)), ("misses", some (numberJson bucket.misses)),
    ("coldRuns", some (numberJson bucket.coldRuns)),
    ("coldRunMs", some (numberJson bucket.coldRunMs)),
    ("hitRuns", some (numberJson bucket.hitRuns)),
    ("hitRunMs", some (numberJson bucket.hitRunMs)),
    ("coldCleanupMs", bucket.coldCleanupMs.map numberJson),
    ("hitCleanupMs", bucket.hitCleanupMs.map numberJson),
    ("offloadedCleanupMs", bucket.offloadedCleanupMs.map numberJson),
    ("timeSavedMs", some (numberJson bucket.timeSavedMs)),
    ("firstRunAt", some (.string bucket.firstRunAt)),
    ("lastRunAt", some (.string bucket.lastRunAt)),
    ("lastColdBuildMs", bucket.lastColdBuildMs.map numberJson),
    ("lastPodsMs", bucket.lastPodsMs.map numberJson),
    ("offloadedRuns", bucket.offloadedRuns.map numberJson),
    ("offloadedRunMs", bucket.offloadedRunMs.map numberJson),
    ("lastOffloadHost", bucket.lastOffloadHost.map .string)]

def StatsBucket.json (bucket : StatsBucket) : Json := objectJson bucket.members

def StatsScope.json (scope : StatsScope) : Json := ByPlatform.json StatsBucket.json scope

def RunSample.members (sample : RunSample) : List (String × Option Json) :=
  [("at", some (.string sample.at')),
    ("durationMs", some (numberJson sample.durationMs)),
    ("phases", some (mapJson numberJson sample.phases)),
    ("deviceSetup", sample.deviceSetup.map .bool)]

def RunSample.json (sample : RunSample) : Json := objectJson sample.members

def RunLists.members (lists : RunLists) : List (String × Option Json) :=
  [("hit", listJson RunSample.json lists.hit),
    ("cold", listJson RunSample.json lists.cold)]

def RunLists.json (lists : RunLists) : Json := objectJson lists.members

def RunHistory.json (history : RunHistory) : Json := ByPlatform.json RunLists.json history

def StatsPlacement.members (placement : StatsPlacement) : List (String × Option Json) :=
  [("at", some (.string placement.at')),
    ("project", some (.string placement.project)),
    ("platform", some placement.platform.json), ("decision", some placement.decision.json),
    ("reason", some (.string placement.reason)), ("machine", placement.machine.map .string),
    ("buildMs", placement.buildMs.map numberJson),
    ("slotWaitMs", placement.slotWaitMs.map numberJson),
    ("deviceSlotWaitMs", placement.deviceSlotWaitMs.map numberJson),
    ("localEstimateMs", placement.localEstimateMs.map numberJson),
    ("failed", if placement.failed then some (.bool true) else none)]

def StatsPlacement.json (placement : StatsPlacement) : Json := objectJson placement.members

def StatsCapacityRefusal.members (event : StatsCapacityRefusal) : List (String × Option Json) :=
  [("at", some (.string event.at')), ("kind", some (textJson "device")),
    ("platform", some event.platform.json), ("max", some (numberJson event.max)),
    ("workspace", some (.string event.workspace))]

def StatsCapacityRefusal.json (event : StatsCapacityRefusal) : Json := objectJson event.members

def StatsCapacityWait.members (event : StatsCapacityWait) : List (String × Option Json) :=
  [("platform", some event.platform.json), ("max", some (numberJson event.max)),
    ("workspace", some (.string event.workspace)), ("ms", some (numberJson event.ms)),
    ("reclaimed", event.reclaimed.map numberJson), ("at", some (.string event.at')),
    ("kind", some (textJson "device-wait"))]

def StatsCapacityWait.json (event : StatsCapacityWait) : Json := objectJson event.members

/-- `JSON.stringify` writes `null` for `NaN`. -/
def Total.json : Total → Option Json
  | .absent => none
  | .nan => some .null
  | .whole z => some (.number (JsNumber.intText z))

def BuildMachineTotals.members (totals : BuildMachineTotals) : List (String × Option Json) :=
  [("offloaded", totals.offloaded.json), ("offloadedMs", totals.offloadedMs.json),
    ("savedMs", totals.savedMs.json), ("fallbacks", totals.fallbacks.json),
    ("lastOffloadAt", totals.lastOffloadAt.map .string),
    ("lastFallbackAt", totals.lastFallbackAt.map .string)]

def BuildMachineTotals.json (totals : BuildMachineTotals) : Json := objectJson totals.members

def StatsRecord.members (record : StatsRecord) : List (String × Option Json) :=
  [("version", some (numberJson STATS_VERSION)),
    ("machine", some (StatsScope.json record.machine)),
    ("projects", some (mapJson StatsScope.json record.projects)),
    ("history", entriesJson RunHistory.json record.history),
    ("placements", listJson StatsPlacement.json record.placements),
    ("capacityRefusals", listJson StatsCapacityRefusal.json record.capacityRefusals),
    ("capacityWaits", listJson StatsCapacityWait.json record.capacityWaits),
    ("buildMachines", entriesJson BuildMachineTotals.json record.buildMachines)]

def StatsRecord.json (record : StatsRecord) : Json := objectJson record.members

/-- The text that `writeStats` writes. -/
def statsText (record : StatsRecord) : JsString := Json.stringify record.json ++ [10]

/-! ## Calls -/

/-- The statistics file, and the files that unreadable ones were moved to. -/
structure StatsFiles where
  file : Option JsString
  aside : List (Nat × JsString)

inductive StatsNote where
  | newer (version : Int)
  | movedAside (now : Nat)

def StatsNote.text (path : String) : StatsNote → String
  | .newer version =>
      s!"Run statistics at {path} are version {version}, which this Stim does not understand, " ++
        "so this run was not recorded."
  | .movedAside now =>
      s!"Run statistics at {path} could not be read, so they were moved to {path}.corrupt-{now} " ++
        "and a new file was started."

structure LoadedStats where
  record : Option StatsRecord
  files : StatsFiles
  note : Option StatsNote

structure StatsCapacityEvent where
  platform : StatsPlatform
  max : Nat
  workspace : JsString

structure StatsWaitEvent extends StatsCapacityEvent where
  ms : JsNumber
  reclaimed : Option JsNumber

/-- A call, and what it is called with. -/
inductive StatsCall where
  | run (run : StatsRun)
  | refusal (event : StatsCapacityEvent)
  | wait (event : StatsWaitEvent)

/-- What a call leaves: the files, the record it wrote, and its note. -/
structure StatsResult where
  files : StatsFiles
  written : Option StatsRecord
  note : Option StatsNote

/-- `event.reclaimed && Number.isInteger(event.reclaimed) && event.reclaimed > 0` -/
def reclaimedOf (reclaimed : Option JsNumber) : Option Nat :=
  match reclaimed.bind JsNumber.integer with
  | some z => if 0 < z then some z.toNat else none
  | none => none

section

variable (otherForms : JsString → Option Int)

def loadForUpdate (files : StatsFiles) (now : Nat) (recoverCorrupt : Bool) : LoadedStats :=
  match files.file with
  | none => { record := some emptyStats, files := files, note := none }
  | some text =>
      match decodeStats otherForms text with
      | .unreadable =>
          if recoverCorrupt then
            { record := some emptyStats
              files := { file := none, aside := files.aside ++ [(now, text)] }
              note := some (.movedAside now) }
          else { record := none, files := files, note := none }
      | .newer version => { record := none, files := files, note := some (.newer version) }
      | .record record => { record := some record, files := files, note := none }

def writeStats (files : StatsFiles) (record : StatsRecord) (note : Option StatsNote) :
    StatsResult :=
  { files := { files with file := some (statsText record) }, written := some record, note := note }

/-- What each call makes of the record it loaded. -/
def updateRecord (record : StatsRecord) (call : StatsCall) (now : Nat) : StatsRecord :=
  match call with
  | .run run => updateStats otherForms record run now
  | .refusal event =>
      { record with
        capacityRefusals := trimCapacityRefusals otherForms
          (record.capacityRefusals ++ [{
            at' := IsoDate.toISOString now
            platform := event.platform
            max := event.max
            workspace := event.workspace }]) now }
  | .wait event =>
      { record with
        capacityWaits := trimCapacityWaits otherForms
          (record.capacityWaits ++ [{
            at' := IsoDate.toISOString now
            platform := event.platform
            max := event.max
            workspace := event.workspace
            ms := wholeMs event.ms
            reclaimed := reclaimedOf event.reclaimed }]) now }

/-- Only a run moves an unreadable file aside, and only a run notes a newer one. -/
def isRun : StatsCall → Bool
  | .run _ => true
  | .refusal _ | .wait _ => false

/-- `recordRunStats`, `recordCapacityRefusal` or `recordCapacityWait` -/
def recordStats (files : StatsFiles) (call : StatsCall) (now : Nat) : StatsResult :=
  let loaded := loadForUpdate otherForms files now (isRun call)
  match loaded.record with
  | none =>
      { files := loaded.files
        written := none
        note := if isRun call then loaded.note else none }
  | some record => writeStats loaded.files (updateRecord otherForms record call now) loaded.note

/-- The calls that other processes make, one after another, from a home without statistics. -/
def after (calls : List (StatsCall × Nat)) : StatsResult :=
  calls.foldl (fun result call => recordStats otherForms result.files call.1 call.2)
    { files := { file := none, aside := [] }, written := none, note := none }

end

end Stim.RunStats
