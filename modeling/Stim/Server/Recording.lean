import Stim.Lib.BigEndian
import Mathlib.Data.List.Sort

/-!
# Recorded footage

One device's footage as `DeviceRecording` of `packages/server/src/recorder.ts` writes it: segment
files of access units, each unit a record with its length before it.  `readUnitsFrom` of
`replay.ts` reads the whole records of a file that may end inside one, and `listSegments` of
`packages/core/state/recordings.ts` lists the files.

Capture times are whole milliseconds.
-/

namespace Stim.Server

inductive Posture
  | folded | unfolded
  deriving DecidableEq

structure AccessUnit where
  keyframe : Bool
  capturedAt : Nat
  width : UInt16
  height : UInt16
  posture : Option Posture
  data : List UInt8
  deriving DecidableEq

/-! ## Records -/

def videoKeyframe : UInt8 := 1
def videoFolded : UInt8 := 2
def videoUnfolded : UInt8 := 4

/-- The bytes of a record's header after its length. -/
def recordHeaderBytes : Nat := 13

def AccessUnit.flags (unit : AccessUnit) : UInt8 :=
  (if unit.keyframe then videoKeyframe else 0) |||
    match unit.posture with
    | some .folded => videoFolded
    | some .unfolded => videoUnfolded
    | none => 0

/-- A record after its length. -/
def AccessUnit.payload (unit : AccessUnit) : List UInt8 :=
  unit.flags :: (BigEndian.bytes 8 (BigEndian.doubleBits unit.capturedAt) ++
    (BigEndian.bytes 2 unit.width.toNat ++ (BigEndian.bytes 2 unit.height.toNat ++ unit.data)))

/-- One stored access unit: the length of the rest, then the header and the data. -/
def recordBytes (unit : AccessUnit) : List UInt8 :=
  BigEndian.bytes 4 (recordHeaderBytes + unit.data.length) ++ unit.payload

/-- What `readUnitsFrom` takes from a record after its length. -/
def readUnit (payload : List UInt8) : AccessUnit :=
  let flags := payload.headD 0
  { keyframe := flags &&& videoKeyframe != 0
    capturedAt := BigEndian.wholePart (BigEndian.value ((payload.drop 1).take 8))
    width := UInt16.ofNat (BigEndian.value ((payload.drop 9).take 2))
    height := UInt16.ofNat (BigEndian.value ((payload.drop 11).take 2))
    posture :=
      if flags &&& videoUnfolded != 0 then some .unfolded
      else if flags &&& videoFolded != 0 then some .folded
      else none
    data := payload.drop 13 }

/-- The whole records of the next `fuel` bytes. -/
def readRecords : Nat → List UInt8 → List AccessUnit
  | 0, _ => []
  | fuel + 1, bytes =>
      if bytes.length < 4 then []
      else
        let length := BigEndian.value (bytes.take 4)
        if length < recordHeaderBytes || bytes.length < 4 + length then []
        else
          readUnit ((bytes.drop 4).take length) :: readRecords fuel (bytes.drop (4 + length))

def readUnitsFrom (bytes : List UInt8) : List AccessUnit := readRecords bytes.length bytes

/-- A unit whose time a double holds exactly, and whose record's length fits its four bytes. -/
structure AccessUnit.Recordable (unit : AccessUnit) : Prop where
  capturedAt : unit.capturedAt < 2 ^ 53
  length : recordHeaderBytes + unit.data.length < 2 ^ 32

instance (unit : AccessUnit) : Decidable unit.Recordable :=
  decidable_of_iff (unit.capturedAt < 2 ^ 53 ∧ recordHeaderBytes + unit.data.length < 2 ^ 32)
    ⟨fun h => ⟨h.1, h.2⟩, fun h => ⟨h.1, h.2⟩⟩

variable {unit : AccessUnit}

theorem flags_keyframe (unit : AccessUnit) :
    (unit.flags &&& videoKeyframe != 0) = unit.keyframe := by
  unfold AccessUnit.flags
  cases unit.keyframe <;> rcases unit.posture with _ | _ | _ <;> rfl

theorem flags_posture (unit : AccessUnit) :
    (if unit.flags &&& videoUnfolded != 0 then some Posture.unfolded
      else if unit.flags &&& videoFolded != 0 then some Posture.folded
      else none) = unit.posture := by
  unfold AccessUnit.flags
  cases unit.keyframe <;> rcases unit.posture with _ | _ | _ <;> rfl

theorem readUnit_payload (h : unit.Recordable) : readUnit unit.payload = unit := by
  have htime : BigEndian.value (BigEndian.bytes 8 (BigEndian.doubleBits unit.capturedAt)) = _ :=
    BigEndian.value_bytes (BigEndian.doubleBits_lt h.capturedAt)
  have hwidth : BigEndian.value (BigEndian.bytes 2 unit.width.toNat) = _ :=
    BigEndian.value_bytes unit.width.toNat_lt
  have hheight : BigEndian.value (BigEndian.bytes 2 unit.height.toNat) = _ :=
    BigEndian.value_bytes unit.height.toNat_lt
  have htime' : (unit.payload.drop 1).take 8 =
      BigEndian.bytes 8 (BigEndian.doubleBits unit.capturedAt) :=
    List.take_left' (BigEndian.length_bytes 8 _)
  have hrest : unit.payload.drop 9 =
      BigEndian.bytes 2 unit.width.toNat ++ (BigEndian.bytes 2 unit.height.toNat ++ unit.data) :=
    List.drop_left' (BigEndian.length_bytes 8 _)
  have hwidth' : (unit.payload.drop 9).take 2 = BigEndian.bytes 2 unit.width.toNat := by
    rw [hrest]
    exact List.take_left' (BigEndian.length_bytes 2 _)
  have hlast : unit.payload.drop 11 = BigEndian.bytes 2 unit.height.toNat ++ unit.data := by
    rw [show 11 = 9 + 2 from rfl, ← List.drop_drop, hrest]
    exact List.drop_left' (BigEndian.length_bytes 2 _)
  have hheight' : (unit.payload.drop 11).take 2 = BigEndian.bytes 2 unit.height.toNat := by
    rw [hlast]
    exact List.take_left' (BigEndian.length_bytes 2 _)
  have hdata : unit.payload.drop 13 = unit.data := by
    rw [show 13 = 11 + 2 from rfl, ← List.drop_drop, hlast]
    exact List.drop_left' (BigEndian.length_bytes 2 _)
  have hflags : unit.payload.headD 0 = unit.flags := rfl
  unfold readUnit
  dsimp only
  rw [hflags, htime', hwidth', hheight', hdata, htime, hwidth, hheight,
    BigEndian.wholePart_doubleBits h.capturedAt, flags_keyframe, flags_posture,
    UInt16.ofNat_toNat, UInt16.ofNat_toNat]

theorem length_payload (unit : AccessUnit) :
    unit.payload.length = recordHeaderBytes + unit.data.length := by
  simp [AccessUnit.payload, recordHeaderBytes]
  omega

theorem length_recordBytes (unit : AccessUnit) :
    (recordBytes unit).length = 4 + (recordHeaderBytes + unit.data.length) := by
  simp [recordBytes, length_payload]

/-- The length that stands before a record. -/
theorem value_take_recordBytes (h : unit.Recordable) (more : List UInt8) :
    BigEndian.value ((recordBytes unit ++ more).take 4) =
      recordHeaderBytes + unit.data.length := by
  have htake : (recordBytes unit ++ more).take 4 =
      BigEndian.bytes 4 (recordHeaderBytes + unit.data.length) := by
    rw [recordBytes, List.append_assoc]
    exact List.take_left' (BigEndian.length_bytes 4 _)
  rw [htake]
  exact BigEndian.value_bytes h.length

theorem readRecords_record (h : unit.Recordable) (fuel : Nat) (more : List UInt8) :
    readRecords (fuel + 1) (recordBytes unit ++ more) = unit :: readRecords fuel more := by
  have hlength := value_take_recordBytes h more
  have hpayload : ((recordBytes unit ++ more).drop 4).take
      (recordHeaderBytes + unit.data.length) = unit.payload := by
    rw [recordBytes, List.append_assoc, List.drop_left' (BigEndian.length_bytes 4 _)]
    exact List.take_left' (length_payload unit)
  have hmore : (recordBytes unit ++ more).drop (4 + (recordHeaderBytes + unit.data.length)) =
      more := List.drop_left' (length_recordBytes unit)
  have hsize : (recordBytes unit ++ more).length =
      4 + (recordHeaderBytes + unit.data.length) + more.length := by
    rw [List.length_append, length_recordBytes]
  rw [readRecords, if_neg (by omega)]
  dsimp only
  rw [hlength, hpayload, hmore, readUnit_payload h, if_neg]
  simp only [Bool.or_eq_true, decide_eq_true_eq, not_or, not_lt]
  omega

/-- Part of a record: what is on disk while it is written. -/
def PartOfRecord (bytes : List UInt8) : Prop :=
  bytes = [] ∨ ∃ unit : AccessUnit, unit.Recordable ∧
    ∃ rest, rest ≠ [] ∧ bytes ++ rest = recordBytes unit

theorem readRecords_part {bytes : List UInt8} (h : PartOfRecord bytes) (fuel : Nat) :
    readRecords fuel bytes = [] := by
  cases fuel with
  | zero => rfl
  | succ fuel =>
      unfold readRecords
      split_ifs with hshort
      · rfl
      · rcases h with rfl | ⟨unit, hunit, rest, hrest, hbytes⟩
        · simp at hshort
        · have hsize := congrArg List.length hbytes
          have hpos := List.length_pos_of_ne_nil hrest
          rw [List.length_append, length_recordBytes] at hsize
          have htake : bytes.take 4 = (recordBytes unit ++ []).take 4 := by
            rw [List.append_nil, ← hbytes]
            exact (List.take_append_of_le_length (by omega)).symm
          dsimp only
          rw [htake, value_take_recordBytes hunit, if_pos]
          simp only [Bool.or_eq_true, decide_eq_true_eq]
          omega

/-- Of a file that may end inside a record, the whole records are read. -/
theorem readUnitsFrom_records {units : List AccessUnit} {part : List UInt8}
    (h : ∀ unit ∈ units, unit.Recordable) (hpart : PartOfRecord part) :
    readUnitsFrom (units.flatMap recordBytes ++ part) = units := by
  suffices hfuel : ∀ fuel, (units.flatMap recordBytes ++ part).length ≤ fuel →
      readRecords fuel (units.flatMap recordBytes ++ part) = units from hfuel _ le_rfl
  induction units with
  | nil => exact fun fuel _ => readRecords_part hpart fuel
  | cons unit units ih =>
      intro fuel hfuel
      have hunit := h unit List.mem_cons_self
      rw [List.flatMap_cons, List.append_assoc] at hfuel ⊢
      rw [List.length_append, length_recordBytes] at hfuel
      obtain ⟨fuel, rfl⟩ : ∃ more, fuel = more + 1 := ⟨fuel - 1, by omega⟩
      rw [readRecords_record hunit, ih (fun other hmem => h other (List.mem_cons_of_mem _ hmem)) fuel
        (by omega)]

/-! ## Segments -/

/-- A segment's file: `<start>-<end>.seg`, or `<start>.part` while it is written. -/
structure SegmentFile where
  start : Nat
  /-- the end in the name of a closed segment -/
  closed : Option Nat
  mtime : Nat
  bytes : List UInt8
  deriving DecidableEq

/-- The end that a segment is listed with. -/
def SegmentFile.end_ (file : SegmentFile) : Nat := max file.start (file.closed.getD file.mtime)

/-- The segments of a directory, oldest first. -/
def listSegments (dir : List SegmentFile) : List SegmentFile :=
  dir.insertionSort fun a b => a.start ≤ b.start

def readUnits (file : SegmentFile) : List AccessUnit := readUnitsFrom file.bytes

/-! ## The recorder -/

/-- The recording of one device, with its directory. -/
structure DeviceRecording where
  /-- the files in the order in which they were created -/
  dir : List SegmentFile
  /-- whether the newest file is open -/
  fd : Bool
  start : Nat
  last : Nat
  /-- a unit that is being written, with the bytes that are not on disk -/
  writing : Option (List UInt8 × AccessUnit)
  broken : Bool
  /-- whether the recording was stopped -/
  detached : Bool
  /-- when the newest unit was captured, recorded or not -/
  latest : Option Nat
  deriving DecidableEq

/-- How the file system answers while a unit is written. -/
structure FileAnswers where
  /-- the workspace still has its `workspace.json` -/
  workspace : Bool
  /-- the directory and the new segment's file could be made -/
  opened : Bool
  /-- a segment that is finished could be renamed -/
  renamed : Bool
  /-- the new file's modification time -/
  mtime : Nat
  deriving DecidableEq

namespace DeviceRecording

def init : DeviceRecording where
  dir := []
  fd := false
  start := 0
  last := 0
  writing := none
  broken := false
  detached := false
  latest := none

/-- Changes the newest file. -/
def modifyNewest (dir : List SegmentFile) (change : SegmentFile → SegmentFile) :
    List SegmentFile :=
  match dir.getLast? with
  | none => dir
  | some file => dir.dropLast ++ [change file]

def finish (r : DeviceRecording) (ends : Nat) (renamed : Bool) : DeviceRecording :=
  if !r.fd then r
  else if renamed then
    { r with
      fd := false
      dir := modifyNewest r.dir fun file =>
        { file with closed := some (max (max ends r.last) r.start) } }
  else { r with fd := false, broken := true }

def fail (r : DeviceRecording) (renamed : Bool) : DeviceRecording :=
  { r with broken := true }.finish r.last renamed

/-- The start of `writeSync`; a record too long for its length's bytes makes it throw. -/
def writeSync (r : DeviceRecording) (unit : AccessUnit) (answers : FileAnswers) :
    DeviceRecording :=
  if 2 ^ 32 ≤ recordHeaderBytes + unit.data.length then r.fail answers.renamed
  else { r with writing := some (recordBytes unit, unit) }

/-- The newest segment ends at a keyframe once it is long enough. -/
def finishDue (segmentMs : Nat) (r : DeviceRecording) (unit : AccessUnit)
    (answers : FileAnswers) : DeviceRecording :=
  if r.fd && unit.keyframe && r.start + segmentMs ≤ unit.capturedAt then
    r.finish unit.capturedAt answers.renamed
  else r

/-- The rest of `write`, up to the first byte that reaches the disk. -/
def record (r : DeviceRecording) (unit : AccessUnit) (answers : FileAnswers) : DeviceRecording :=
  if r.fd then r.writeSync unit answers
  else if !unit.keyframe || !answers.workspace then r
  else if !answers.opened then { r with start := unit.capturedAt }.fail answers.renamed
  else
    let file : SegmentFile := ⟨unit.capturedAt, none, answers.mtime, []⟩
    { r with start := unit.capturedAt, fd := true, dir := r.dir ++ [file] }.writeSync unit
      answers

def write (segmentMs : Nat) (r : DeviceRecording) (unit : AccessUnit) (answers : FileAnswers) :
    DeviceRecording :=
  if r.broken then r else (r.finishDue segmentMs unit answers).record unit answers

inductive Action
  /-- A unit arrives. -/
  | write (unit : AccessUnit) (answers : FileAnswers)
  /-- Some bytes of the unit that is written reach the disk. -/
  | flush (count mtime : Nat)
  /-- Writing a unit fails. -/
  | writeFails (renamed : Bool)
  /-- The frames' helper fails. -/
  | fail (renamed : Bool)
  | heartbeat (mtime : Nat)
  | stop (renamed : Bool)
  deriving DecidableEq

/-- Between two units of a recording. -/
def idle (r : DeviceRecording) : Bool := r.writing.isNone && !r.detached

def step (segmentMs : Nat) (r : DeviceRecording) : Action → Option DeviceRecording
  | .write unit answers =>
      if r.idle && r.latest.all (· < unit.capturedAt) && unit.capturedAt < 2 ^ 53 then
        some { r.write segmentMs unit answers with latest := some unit.capturedAt }
      else none
  | .flush count mtime =>
      match r.writing with
      | none => none
      | some (rest, unit) =>
          let left := rest.drop count
          some { r with
            dir := modifyNewest r.dir fun file =>
              { file with bytes := file.bytes ++ rest.take count, mtime }
            writing := if left = [] then none else some (left, unit)
            last := if left = [] then max r.last unit.capturedAt else r.last }
  | .writeFails renamed =>
      if r.writing.isSome then some ({ r with writing := none }.fail renamed) else none
  | .fail renamed => if r.idle then some (r.fail renamed) else none
  | .heartbeat mtime =>
      if r.idle then
        some (if r.fd then
          { r with dir := modifyNewest r.dir fun file => { file with mtime } } else r)
      else none
  | .stop renamed =>
      if r.idle then some { r.finish r.last renamed with detached := true } else none

end DeviceRecording

end Stim.Server
