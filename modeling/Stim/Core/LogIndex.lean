import Stim.Core.LogQuery
import Stim.Lib.Machine

/-!
# The index of a log generation

`buildGenerationIndex` of `packages/core/state/log-reader.ts` with `indexBlock`, `stillExtends` and
`resumeFrom`: a generation is read in blocks of complete lines, and what its records say is kept
with the blocks.  A later view of the same generation goes on from the index that is cached.

A parse makes new arrays and objects, so a set takes each of them anew; two that stand for the same
text are one value here.  How `JSON.parse` and `JSON.stringify` read and write a value are
parameters.  An index that is given up half-way, because its view was cancelled, leaves nothing.
-/

namespace Stim.Logs.LogIndex

def BLOCK_BYTES : Nat := 64 * 1024
def MAX_CACHED_GENERATIONS : Nat := 512
def VALIDATE_BYTES : Nat := 256

/-- How records and the keys of their markers are read and written. -/
structure Reading where
  parse : List Char → Option (Parsed NdjsonRecord)
  runtime : Runtime
  /-- the source, the slot if there is one, and the platform -/
  stringify : JsonValue → Option JsonValue → Option String → String

structure Block where
  start : Nat
  stop : Nat
  maxTs : Double
  minTs : Double
  sources : List (Option JsonValue)
  levels : List (Option JsonValue)
  deriving DecidableEq

structure Positioned where
  record : NdjsonRecord
  position : Nat

/-- A marker record, reduced to what a query asks of it. -/
structure Marker where
  src : Option JsonValue
  ts : Option Rat
  slot : Option JsonValue
  platform : Option String
  deriving DecidableEq

structure GenerationIndex where
  size : Nat
  head : List UInt8
  tail : List UInt8
  blocks : List Block
  minTs : Option Rat
  markers : OrderedMap String Marker
  launchAttempts : List Positioned
  slots : List JsonValue

def emptyIndex : GenerationIndex := ⟨0, [], [], [], none, .empty, [], []⟩

/-! ## Records -/

def tsKey (record : NdjsonRecord) : Double :=
  match tsOf record with
  | some ts => .finite ts
  | none => .infinity

/-- `Math.max` -/
def maxOf (a b : Double) : Double := if a.lt b then b else a

/-- `Math.min` -/
def minOf (a b : Double) : Double := if b.lt a then b else a

def isReference : JsonValue → Bool
  | .ref _ => true
  | _ => false

/-- `Set.add` -/
def addValue {α : Type} [DecidableEq α] (anew : α → Bool) (values : List α) (value : α) : List α :=
  if value ∈ values ∧ anew value = false then values else values ++ [value]

def markerTs (marker : Marker) : Double :=
  match marker.ts with
  | some ts => .finite ts
  | none => .negInfinity

def keepNewer (markers : OrderedMap String Marker) (key : String) (marker : Marker) :
    OrderedMap String Marker :=
  match markers.get key with
  | none => markers.set key marker
  | some known => if (markerTs known).lt (markerTs marker) then markers.set key marker else markers

variable (reading : Reading)

def markerKey (record : NdjsonRecord) : String × Marker :=
  let platform :=
    if isMetro record then reading.runtime.bundleMarkerPlatform record else text record.platform
  (reading.stringify (record.src.getD .null) record.slot platform,
    ⟨record.src, tsOf record, record.slot, platform⟩)

def noteMinTs (minTs : Option Rat) (record : NdjsonRecord) : Option Rat :=
  match tsOf record, minTs with
  | none, _ => minTs
  | some value, none => some value
  | some value, some least => if value < least then some value else minTs

def noteMarker (markers : OrderedMap String Marker) (record : NdjsonRecord) :
    OrderedMap String Marker :=
  if isMarker record then
    keepNewer markers (markerKey reading record).1 (markerKey reading record).2
  else markers

def isLaunchAttempt (record : NdjsonRecord) : Bool :=
  record.event == some (.str "launch_attempt")

/-- What the index keeps of a record, apart from its block. -/
def note (index : GenerationIndex) (entry : Positioned) : GenerationIndex :=
  { index with
    minTs := noteMinTs index.minTs entry.record
    slots := addValue isReference index.slots (slotOf entry.record)
    markers := noteMarker reading index.markers entry.record
    launchAttempts :=
      if isLaunchAttempt entry.record then index.launchAttempts ++ [entry]
      else index.launchAttempts }

def noteBlock (block : Block) (entry : Positioned) : Block :=
  { block with
    maxTs := maxOf block.maxTs (tsKey entry.record)
    minTs := minOf block.minTs (tsKey entry.record)
    sources := addValue (·.any isReference) block.sources entry.record.src
    levels := addValue (·.any isReference) block.levels entry.record.level }

/-- Lines with their positions. -/
def positions (start : Nat) : List (List UInt8) → List (Nat × List UInt8)
  | [] => []
  | line :: lines => (start, line) :: positions (start + line.length + 1) lines

def parseAt (line : Nat × List UInt8) : Option Positioned :=
  (parseNdjsonLine reading.parse (Utf8.decode line.2)).map fun record => ⟨record, line.1⟩

/-- The records of complete lines, with their positions. -/
def recordsAt (start : Nat) (buffer : List UInt8) : List Positioned :=
  (positions start (Lines.complete Utf8.newline buffer)).filterMap (parseAt reading)

def indexBlock (index : GenerationIndex) (buffer : List UInt8) (start : Nat) :
    GenerationIndex × Block :=
  let records := recordsAt reading start buffer
  (records.foldl (note reading) index,
    records.foldl noteBlock ⟨start, start + buffer.length, .negInfinity, .infinity, [], []⟩)

/-! ## Building -/

def read (bytes : List UInt8) (position length : Nat) : List UInt8 :=
  (bytes.drop position).take length

def stillExtends (bytes : List UInt8) (index : GenerationIndex) (size : Nat) : Bool :=
  if size < index.size then false
  else
    read bytes 0 index.head.length = index.head &&
      read bytes (index.size - index.tail.length) index.tail.length = index.tail

/-- The last block is read again with what follows it, unless it is a long one. -/
def resumeFrom (index : GenerationIndex) : GenerationIndex :=
  match index.blocks.getLast? with
  | none => index
  | some last =>
      if BLOCK_BYTES ≤ last.stop - last.start then index
      else
        { index with
          size := last.start
          blocks := index.blocks.dropLast
          launchAttempts := index.launchAttempts.filter fun attempt =>
            attempt.position < last.start }

/-- How much is asked for at once, after as many lines that did not fit. -/
def asked (size offset doublings : Nat) : Nat :=
  min (BLOCK_BYTES * 2 ^ doublings) (size - offset)

/-- The complete lines among the bytes that are asked for. -/
def linesAt (bytes : List UInt8) (size offset doublings : Nat) : List UInt8 :=
  Lines.through Utf8.newline (read bytes offset (asked size offset doublings))

/-- No line ends in the bytes that are left. -/
def AtEnd (bytes : List UInt8) (size offset doublings : Nat) : Prop :=
  (read bytes offset (asked size offset doublings)).length < asked size offset doublings ∨
    size ≤ offset + (read bytes offset (asked size offset doublings)).length

instance (bytes : List UInt8) (size offset doublings : Nat) :
    Decidable (AtEnd bytes size offset doublings) :=
  inferInstanceAs (Decidable (_ ∨ _))

theorem doublings_lt {bytes : List UInt8} {size offset doublings : Nat} (h : offset < size)
    (hmore : ¬ AtEnd bytes size offset doublings) : doublings < size - offset := by
  rw [AtEnd, not_or] at hmore
  have hpow : doublings < 2 ^ doublings := Nat.lt_two_pow_self
  have hasked : asked size offset doublings < size - offset := by omega
  unfold asked BLOCK_BYTES at hasked
  omega

theorem size_lt {size offset taken doublings : Nat} (h : offset < size) (htaken : 0 < taken) :
    (size - (offset + taken)) * (size + 1) + (size - 0) <
      (size - offset) * (size + 1) + (size - doublings) := by
  have hless : size - (offset + taken) + 1 ≤ size - offset := by omega
  have hmul := Nat.mul_le_mul_right (size + 1) hless
  rw [Nat.add_mul, Nat.one_mul] at hmul
  omega

def readBlocks (bytes : List UInt8) (size offset doublings : Nat) (next : GenerationIndex) :
    GenerationIndex × Nat :=
  if _h : offset < size then
    if hlines : linesAt bytes size offset doublings = [] then
      if hend : AtEnd bytes size offset doublings then (next, offset)
      else readBlocks bytes size offset (doublings + 1) next
    else
      let indexed := indexBlock reading next (linesAt bytes size offset doublings) offset
      readBlocks bytes size (offset + (linesAt bytes size offset doublings).length) 0
        { indexed.1 with blocks := indexed.1.blocks ++ [indexed.2] }
  else (next, offset)
termination_by (size - offset) * (size + 1) + (size - doublings)
decreasing_by
  · have := doublings_lt _h hend
    omega
  · exact size_lt _h (List.length_pos_of_ne_nil hlines)

/-- The index after the blocks that were read. -/
def finished (bytes : List UInt8) (next : GenerationIndex) (offset : Nat) : GenerationIndex :=
  { next with
    size := offset
    head := read bytes 0 (min VALIDATE_BYTES offset)
    tail := read bytes (offset - VALIDATE_BYTES) (min VALIDATE_BYTES offset) }

def extended (bytes : List UInt8) (size : Nat) (index : GenerationIndex) : GenerationIndex :=
  let blocks := readBlocks reading bytes size index.size 0 index
  finished bytes blocks.1 blocks.2

def buildGenerationIndex (bytes : List UInt8) (cached : Option GenerationIndex) (size : Nat) :
    GenerationIndex :=
  match cached.filter fun index => stillExtends bytes index size with
  | none => extended reading bytes size emptyIndex
  | some known =>
      if known.size = size then known else extended reading bytes size (resumeFrom known)

/-! ## The cache -/

/-- A view that indexes a generation: the size at which it was opened, and the index that was
cached when it began. -/
structure Building where
  size : Nat
  cached : Option GenerationIndex

/-- The generations by their identity, the cache, and the views that index one; each generation
is indexed by one view at a time. -/
structure Indexes where
  files : String → List UInt8
  cache : OrderedMap String GenerationIndex
  building : String → Option Building

def dropFirst {ν : Type} (count : Nat) (map : OrderedMap String ν) : OrderedMap String ν where
  entries := map.entries.drop count
  nodup := by
    rw [List.map_drop]
    exact map.nodup.sublist (List.drop_sublist _ _)

/-- The cache with an index that was built, less its oldest indexes beyond the limit. -/
def cacheWith (cache : OrderedMap String GenerationIndex) (identity : String)
    (index : GenerationIndex) : OrderedMap String GenerationIndex :=
  let kept := (cache.delete identity).set identity index
  dropFirst (kept.entries.length - MAX_CACHED_GENERATIONS) kept

def built (s : Indexes) (identity : String) : Option GenerationIndex :=
  (s.building identity).map fun building =>
    buildGenerationIndex reading (s.files identity) building.cached building.size

inductive Action where
  | append (identity : String) (bytes : List UInt8)
  | start (identity : String) (size : Nat)
  | finish (identity : String)
  | cancel (identity : String)

def noIndexes : Indexes := ⟨fun _ => [], .empty, fun _ => none⟩

def step (s : Indexes) : Action → Option Indexes
  | .append identity bytes =>
      some { s with files := Function.update s.files identity (s.files identity ++ bytes) }
  | .start identity size =>
      if (s.building identity).isNone ∧ size ≤ (s.files identity).length then
        some { s with
          building := Function.update s.building identity
            (some ⟨size, s.cache.get identity⟩) }
      else none
  | .finish identity => (built reading s identity).map fun index =>
      { s with
        cache := cacheWith s.cache identity index
        building := Function.update s.building identity none }
  | .cancel identity =>
      some { s with building := Function.update s.building identity none }

end Stim.Logs.LogIndex
