import Stim.Core.Ndjson

/-!
# Log queries

`planLogQuery` of `packages/core/state/logs-query.ts` with `recordMatches` and `buildCriteria`:
which records a query matches, decided from the marker records of the timeline, and up to which
time it matches none.

How a value reads as a string and how a string is lowercased are parameters.  Times are exact.
-/

namespace Stim.Logs

open Whitespace

/-! ## Numbers -/

/-- A number that a caller gives; the times of records are finite. -/
inductive Double where
  | nan
  | negInfinity
  | finite (value : Rat)
  | infinity
  deriving DecidableEq

namespace Double

def lt : Double → Double → Bool
  | .nan, _ | _, .nan => false
  | .negInfinity, .negInfinity => false
  | .negInfinity, _ => true
  | .finite a, .finite b => a < b
  | .finite _, .infinity => true
  | .finite _, .negInfinity => false
  | .infinity, _ => false

def le : Double → Double → Bool
  | .nan, _ | _, .nan => false
  | .negInfinity, _ => true
  | .finite a, .finite b => a ≤ b
  | .finite _, .infinity => true
  | .finite _, .negInfinity => false
  | .infinity, .infinity => true
  | .infinity, _ => false

def minus : Double → Rat → Double
  | .finite a, b => .finite (a - b)
  | a, _ => a

end Double

/-! ## Options -/

/-- How the runtime reads a value as text and lowercases a text. -/
structure Runtime where
  toText : JsonValue → String
  toLowerCase : String → String

inductive GrepPattern where
  /-- the empty text -/
  | empty
  | invalid (pattern reason : String)
  | re (found : String → Bool)

structure LogQueryOptions where
  slot : Option String
  sources : Option (List String)
  minLevel : Option String
  since : Option String
  grep : Option GrepPattern
  errorsOnly : Bool
  now : Double

def SINCE_FORMS : String := "30s, 5m, 2h"

/-- The milliseconds of a unit. -/
def sinceUnit : Char → Option Nat
  | 's' | 'S' => some 1000
  | 'm' | 'M' => some 60000
  | 'h' | 'H' => some 3600000
  | _ => none

def decimalDigit (c : Char) : Bool := '0' ≤ c && c ≤ '9'

def decimal (digits : List Char) : Nat := digits.foldl (fun n c => 10 * n + (c.toNat - 48)) 0

/-- A count and a unit: `/^(\d+)\s*([smh])$/i` on the trimmed text. -/
def parseSince (value : String) : Except String Rat :=
  let trimmed := trim value.toList
  let digits := trimmed.takeWhile decimalDigit
  let unit := (trimmed.dropWhile decimalDigit).dropWhile isSpace
  match digits, unit with
  | _ :: _, [c] =>
      match sinceUnit c with
      | some ms => .ok (decimal digits * ms : Nat)
      | none => .error s!"Invalid --since value \"{value}\". Use a count and a unit, e.g. {SINCE_FORMS}."
  | _, _ => .error s!"Invalid --since value \"{value}\". Use a count and a unit, e.g. {SINCE_FORMS}."

/-! ## Records -/

def isMetro (record : NdjsonRecord) : Bool := record.src == some (.str "metro")

def isClient (record : NdjsonRecord) : Bool := record.src == some (.str "client")

def isMarker (record : NdjsonRecord) : Bool := record.marker == some (.bool true)

def isWebPageRecord (record : NdjsonRecord) : Bool :=
  record.platform == some (.str "web") && !isMetro record

def isSharedRecord (record : NdjsonRecord) : Bool :=
  record.slot.isNone && (isMetro record || isClient record) && !isWebPageRecord record

/-- `record.slot ?? 'default'` -/
def slotOf (record : NdjsonRecord) : JsonValue :=
  match record.slot with
  | none | some .null => .str "default"
  | some slot => slot

def inSlot (record : NdjsonRecord) (slot : String) : Bool :=
  isSharedRecord record || slotOf record == .str slot

def isAppDeviceRecord (record : NdjsonRecord) : Bool :=
  record.src == some (.str "device") &&
    (record.event == some (.str "native_crash") || record.platform == some (.str "web"))

def isLaunchMarker (record : NdjsonRecord) : Bool :=
  isMarker record && !isMetro record && !isWebPageRecord record

namespace Runtime

variable (runtime : Runtime)

/-- `String(record.msg ?? '')` -/
def msgText (record : NdjsonRecord) : String :=
  match record.msg with
  | none | some .null => ""
  | some (.str msg) => msg
  | some value => runtime.toText value

/-- The group of `/^\s*(\S+)\s+Bundl/`. -/
def bundleTag (msg : List Char) : Option (List Char) :=
  let rest := msg.dropWhile isSpace
  let tag := rest.takeWhile fun c => !isSpace c
  let after := rest.dropWhile fun c => !isSpace c
  if tag ≠ [] ∧ (after.head?.any isSpace) ∧ "Bundl".toList <+: after.dropWhile isSpace then some tag
  else none

/-- The group of `/^RSC\((.+)\)$/`. -/
def rscTag (tag : List Char) : Option (List Char) :=
  let inner := (tag.drop 4).dropLast
  if "RSC(".toList <+: tag ∧ tag.getLast? = some ')' ∧ inner ≠ [] then some inner else none

/-- The platform a bundle marker speaks for. -/
def bundleMarkerPlatform (record : NdjsonRecord) : Option String :=
  match text record.platform with
  | some platform => some platform
  | none => (bundleTag (runtime.msgText record).toList).map fun tag =>
      runtime.toLowerCase (String.ofList ((rscTag tag).getD tag))

def nativePlatform (record : NdjsonRecord) : Option String :=
  let platform :=
    if isMetro record && isMarker record then runtime.bundleMarkerPlatform record
    else text record.platform
  platform.filter fun platform => platform == "ios" || platform == "android"

end Runtime

/-! ## Criteria -/

def ERROR_SOURCES : List String := ["metro", "client", "build"]

structure QueryCriteria where
  slot : Option String
  includeAppDeviceErrors : Bool
  sources : Option (List String)
  minLevel : Option String
  grep : Option (String → Bool)
  sinceTs : Option Double
  errorsOnly : Bool
  markerTs : Option Rat
  bundleMarkerTs : Option Rat

/-- The sources that a record may have come from. -/
def fromSources (record : NdjsonRecord) (criteria : QueryCriteria) : Bool :=
  match criteria.sources with
  | none | some [] => true
  | some sources =>
      (text record.src).any sources.contains ||
        criteria.includeAppDeviceErrors && isAppDeviceRecord record

/-- What `errorsOnly` asks of a record. -/
def isCurrentError (record : NdjsonRecord) (criteria : QueryCriteria) : Bool :=
  (record.src != some (.str "maintenance") ||
    record.event == some (.str "maintenance_failure")) &&
  (record.level == some (.str "error") || record.level == some (.str "fatal")) &&
  (match criteria.markerTs with
    | none => true
    | some markerTs => (tsOf record).any fun ts => decide (markerTs < ts)) &&
  (match criteria.bundleMarkerTs with
    | none => true
    | some bundleTs => !isMetro record || (tsOf record).any fun ts => decide (bundleTs ≤ ts))

def recordMatches (runtime : Runtime) (record : NdjsonRecord) (criteria : QueryCriteria) : Bool :=
  criteria.slot.all (inSlot record) &&
  fromSources record criteria &&
  (match criteria.minLevel with
    | none | some "" => true
    | some minLevel => levelRank (some (.str minLevel)) ≤ levelRank record.level) &&
  (!criteria.errorsOnly || isCurrentError record criteria) &&
  (match criteria.sinceTs with
    | none => true
    | some sinceTs => (tsOf record).any fun ts => !(Double.finite ts).lt sinceTs) &&
  (match criteria.grep with
    | none => true
    | some found => found (runtime.msgText record))

/-- The time that `since` asks for. -/
def sinceTime (options : LogQueryOptions) : Except String (Option Double) :=
  match options.since with
  | none | some "" => .ok none
  | some since => (parseSince since).map fun ms => some (options.now.minus ms)

def compileGrep (options : LogQueryOptions) : Except String (Option (String → Bool)) :=
  match options.grep with
  | none | some .empty => .ok none
  | some (.invalid pattern reason) => .error s!"Invalid --grep pattern \"{pattern}\": {reason}"
  | some (.re found) => .ok (some found)

def buildCriteria (options : LogQueryOptions) (markerTs bundleMarkerTs : Option Rat) :
    Except String QueryCriteria :=
  (sinceTime options).bind fun sinceTs => (compileGrep options).map fun grep =>
    let given := options.sources.filter fun sources => !sources.isEmpty
    { slot := options.slot
      includeAppDeviceErrors := options.errorsOnly && given.isNone
      sources := given.or (if options.errorsOnly then some ERROR_SOURCES else none)
      minLevel := options.minLevel
      grep := grep
      sinceTs := sinceTs
      errorsOnly := options.errorsOnly
      markerTs := markerTs
      bundleMarkerTs := bundleMarkerTs }

/-! ## Markers -/

/-- The later of a time and what was newest. -/
def newer (newest : Option Rat) (ts : Rat) : Option Rat :=
  match newest with
  | none => some ts
  | some old => if old < ts then some ts else some old

structure MarkerWindow where
  launchTs : Option Rat
  bundleTs : Option Rat
  pageLoadTs : Option Rat

def markerWindow (records : List NdjsonRecord) : MarkerWindow :=
  records.foldl (fun window record =>
    if !isMarker record then window
    else match tsOf record with
      | none => window
      | some ts =>
          if isMetro record then { window with bundleTs := newer window.bundleTs ts }
          else if isWebPageRecord record then
            { window with pageLoadTs := newer window.pageLoadTs ts }
          else { window with launchTs := newer window.launchTs ts }) ⟨none, none, none⟩

/-- The newest time for each key of the records. -/
def newestBy {κ : Type} [DecidableEq κ] (keyOf : NdjsonRecord → κ) (records : List NdjsonRecord) :
    OrderedMap κ Rat :=
  records.foldl (fun newest record =>
    match tsOf record with
    | none => newest
    | some ts =>
        if (newest.get (keyOf record)).all fun old => decide (old < ts) then
          newest.set (keyOf record) ts
        else newest) .empty

def newestByPlatform (records : List NdjsonRecord) (platformOf : NdjsonRecord → Option String) :
    OrderedMap (Option String) Rat := newestBy platformOf records

def newestWhere (newest : OrderedMap (Option String) Rat) (includes : Option String → Bool) :
    Option Rat :=
  newest.entries.foldl (fun ts entry => if includes entry.1 then newer ts entry.2 else ts) none

def launchMarkersBySlot (records : List NdjsonRecord) : OrderedMap JsonValue Rat :=
  newestBy slotOf (records.filter isLaunchMarker)

/-! ## The plan -/

/-- What the markers say of a query. -/
structure LogQuery where
  runtime : Runtime
  criteria : QueryCriteria
  slotLaunched : Bool
  pageLoadTs : Option Rat
  slotMarkers : OrderedMap JsonValue Rat
  launches : OrderedMap (Option String) Rat
  bundles : OrderedMap (Option String) Rat

/-- Whether a record belongs to the queried slot's timeline. -/
def inTimeline (slot : Option String) (slotLaunched : Bool) (record : NdjsonRecord) : Bool :=
  slot.all fun slot => slotOf record == .str slot || (slotLaunched && isSharedRecord record)

namespace LogQuery

variable (query : LogQuery)

def slotPlatforms : List String :=
  match query.criteria.slot with
  | none => []
  | some _ => query.launches.keys.filterMap id

def windowStart (record : NdjsonRecord) : Option Rat :=
  match query.pageLoadTs, isWebPageRecord record with
  | some pageLoadTs, true => some (pageLoadTs - 1)
  | _, _ =>
      if !isMetro record && !isClient record then query.slotMarkers.get (slotOf record)
      else
        ((query.runtime.nativePlatform record).bind fun platform =>
          query.launches.get (some platform)).or query.criteria.markerTs

def otherPlatform (record : NdjsonRecord) : Bool :=
  !query.slotPlatforms.isEmpty && isSharedRecord record &&
    (query.runtime.nativePlatform record).any fun platform =>
      !query.slotPlatforms.contains platform

def bundleWindowStart (record : NdjsonRecord) : Option Rat :=
  let platform := query.runtime.nativePlatform record
  newestWhere query.bundles fun marker =>
    match marker with
    | none => true
    | some marker =>
        match platform with
        | some platform => marker == platform
        | none => query.slotPlatforms.isEmpty || query.slotPlatforms.contains marker

/-- The starts of the slots' windows; `none` when a slot has none. -/
def slotStarts (slots : List JsonValue) : Option (List Rat) := slots.mapM query.slotMarkers.get

def lowest : List Rat → Option Rat
  | [] => none
  | start :: starts => some (starts.foldl min start)

def kinds : List String := query.criteria.sources.getD []

/-- The starts for records that belong to a slot's launch. -/
def slotTimes (slots : Option (List JsonValue)) : Option (List Rat) :=
  if query.criteria.includeAppDeviceErrors ||
      query.kinds.any fun src => src != "metro" && src != "client" then
    match query.criteria.slot with
    | some slot => query.slotStarts [.str slot]
    | none => slots.bind query.slotStarts
  else some []

/-- The starts for Metro's records and the client's. -/
def launchTimes : Option (List Rat) :=
  if query.kinds.contains "metro" || query.kinds.contains "client" then
    query.criteria.markerTs.map fun markerTs => markerTs :: query.launches.values
  else some []

/-- The earliest start among the windows of the records that may match. -/
def lowestWindowStart (slots : Option (List JsonValue)) : Option Rat :=
  if !query.criteria.errorsOnly then none
  else (query.slotTimes slots).bind fun slotTimes => query.launchTimes.bind fun launchTimes =>
    lowest ((query.pageLoadTs.map fun ts => ts - 1).toList ++ slotTimes ++ launchTimes)

def isMatch (record : NdjsonRecord) : Bool :=
  inTimeline query.criteria.slot query.slotLaunched record && !query.otherPlatform record &&
    recordMatches query.runtime record { query.criteria with
      markerTs := query.windowStart record
      bundleMarkerTs := query.bundleWindowStart record }

def excludesUpTo (maxTs : Double) (slots : Option (List JsonValue)) : Bool :=
  query.criteria.sinceTs.any maxTs.lt ||
    (query.lowestWindowStart slots).any fun start => maxTs.le (.finite start)

end LogQuery

/-- Decides which records a query matches from the timeline's marker records alone. -/
def planLogQuery (runtime : Runtime) (markers : List NdjsonRecord) (options : LogQueryOptions) :
    Except String LogQuery :=
  let slotLaunched := options.slot.any fun slot =>
    markers.any fun record => isLaunchMarker record && slotOf record == .str slot
  let all := markers.filter fun record =>
    isMarker record && inTimeline options.slot slotLaunched record
  let window := if options.errorsOnly then markerWindow all else ⟨none, none, none⟩
  (buildCriteria options window.launchTs window.bundleTs).map fun criteria =>
    { runtime := runtime
      criteria := criteria
      slotLaunched := slotLaunched
      pageLoadTs := window.pageLoadTs
      slotMarkers := launchMarkersBySlot all
      launches := newestByPlatform
        (all.filter fun record => !isMetro record && !isWebPageRecord record)
        fun record => text record.platform
      bundles := newestByPlatform (all.filter isMetro) runtime.bundleMarkerPlatform }

end Stim.Logs
