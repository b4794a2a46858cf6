import Stim.Server.Recording
import Stim.Server.Video

/-!
# The bytes of recorded footage

A recorded unit is a record with its length in front of it, and a file is its records one behind the
other.  A file that is still written may end at any byte; its reader takes the whole records and
stops at the first one that is not.

As in a packet, a capture time is the 64 bits of its double, and the outer `Option` is `none` where
the code would read past the bytes or throw.
-/

namespace Stim.Footage

open CheckedReads Video

def RECORD_HEADER_BYTES : Nat := 13

/-- A record after its length. -/
def recordRest (unit : AccessUnit) : Bytes :=
  BigEndian.bytes 1 (keyframeFlag unit.keyframe ||| postureFlag unit.posture) ++
    (BigEndian.bytes 8 unit.capturedAt.toNat ++
    (BigEndian.bytes 2 unit.width.toNat ++
    (BigEndian.bytes 2 unit.height.toNat ++ unit.data)))

/-- A record, or `none` where its length is too large for `writeUInt32BE`. -/
def recordBytes (unit : AccessUnit) : Option Bytes :=
  let length := RECORD_HEADER_BYTES + unit.data.length
  if length < 2 ^ 32 then some (BigEndian.bytes 4 length ++ recordRest unit) else none

/-- The unit whose record begins at an offset. -/
def readUnit (bytes : Bytes) (offset length : Nat) : Option AccessUnit := do
  let flags ← readBE bytes (offset + 4) 1
  let capturedAt ← readBE bytes (offset + 5) 8
  let width ← readBE bytes (offset + 13) 2
  let height ← readBE bytes (offset + 15) 2
  let posture := if hasFlag flags VIDEO_FOLDED then some .folded else none
  return {
    keyframe := hasFlag flags VIDEO_KEYFRAME
    capturedAt := UInt64.ofNat capturedAt
    width := UInt16.ofNat width
    height := UInt16.ofNat height
    data := (bytes.drop (offset + 17)).take (offset + 4 + length - (offset + 17))
    -- the later spread wins
    posture := if hasFlag flags VIDEO_UNFOLDED then some .unfolded else posture
    artworkTurns := none }

/-- The loop of `readUnitsFrom` from an offset on. -/
def readUnitsAt (bytes : Bytes) (offset : Nat) : Option (List AccessUnit) :=
  if offset + 4 ≤ bytes.length then do
    let length ← readBE bytes offset 4
    if length < 13 ∨ bytes.length < offset + 4 + length then return []
    let unit ← readUnit bytes offset length
    let units ← readUnitsAt bytes (offset + 4 + length)
    return unit :: units
  else some []
termination_by bytes.length - offset

def readUnitsFrom (bytes : Bytes) : Option (List AccessUnit) := readUnitsAt bytes 0

/-- What a record keeps of a unit. -/
def recorded (unit : AccessUnit) : AccessUnit := { unit with artworkTurns := none }

/-- Units, each with where its record ends, that are whole in a file of so many bytes. -/
def wholeUnits (units : List AccessUnit) (records : List Bytes) (size : Nat) : List AccessUnit :=
  (units.zipIdx.filter fun entry => (records.take (entry.2 + 1)).flatten.length ≤ size).map
    fun entry => recorded entry.1

/-! ## One record -/

theorem flags_fields (unit : AccessUnit) :
    let flags := keyframeFlag unit.keyframe ||| postureFlag unit.posture
    flags < 256 ∧ hasFlag flags VIDEO_KEYFRAME = unit.keyframe ∧
      (if hasFlag flags VIDEO_UNFOLDED then some Posture.unfolded
        else if hasFlag flags VIDEO_FOLDED then some Posture.folded else none) = unit.posture := by
  generalize unit.keyframe = keyframe
  generalize unit.posture = posture
  cases keyframe <;> rcases posture with _ | _ | _ <;> decide

theorem length_recordRest (unit : AccessUnit) :
    (recordRest unit).length = RECORD_HEADER_BYTES + unit.data.length := by
  simp [recordRest, RECORD_HEADER_BYTES]
  omega

variable {unit : AccessUnit}

theorem recordBytes_eq_some {record : Bytes} (h : recordBytes unit = some record) :
    RECORD_HEADER_BYTES + unit.data.length < 2 ^ 32 ∧
      record = BigEndian.bytes 4 (RECORD_HEADER_BYTES + unit.data.length) ++ recordRest unit := by
  unfold recordBytes at h
  dsimp only at h
  split_ifs at h with hLength
  exact ⟨hLength, (Option.some.inj h).symm⟩

theorem length_record {record : Bytes} (h : recordBytes unit = some record) :
    record.length = 4 + (RECORD_HEADER_BYTES + unit.data.length) := by
  rw [(recordBytes_eq_some h).2, List.length_append, BigEndian.length_bytes, length_recordRest]

/-- Where a whole record stands, its unit is read. -/
theorem readUnit_record {record bytes rest : Bytes} {offset : Nat}
    (h : recordBytes unit = some record) (hBytes : bytes.drop offset = record ++ rest) :
    readBE bytes offset 4 = some (RECORD_HEADER_BYTES + unit.data.length) ∧
      readUnit bytes offset (RECORD_HEADER_BYTES + unit.data.length) = some (recorded unit) := by
  obtain ⟨hLength, rfl⟩ := recordBytes_eq_some h
  obtain ⟨hFlags, hKeyframe, hPosture⟩ := flags_fields unit
  simp only [recordRest, List.append_assoc] at hBytes
  have h4 := drop_field hBytes (BigEndian.length_bytes _ _)
  have h5 := drop_field h4 (BigEndian.length_bytes _ _)
  have h13 := drop_field h5 (BigEndian.length_bytes _ _)
  have h15 := drop_field h13 (BigEndian.length_bytes _ _)
  have h17 := drop_field h15 (BigEndian.length_bytes _ _)
  constructor
  · exact readBE_field hBytes (by decide) hLength
  · have hSize : offset + 4 + (RECORD_HEADER_BYTES + unit.data.length) - (offset + 17) =
        unit.data.length := by
      rw [RECORD_HEADER_BYTES]
      omega
    have hData : bytes.drop (offset + 17) = unit.data ++ rest := h17
    simp only [readUnit, readBE_field h4 (by decide) hFlags,
      readBE_field h5 (by decide) unit.capturedAt.toNat_lt,
      readBE_field h13 (by decide) unit.width.toNat_lt,
      readBE_field h15 (by decide) unit.height.toNat_lt, Option.bind_eq_bind, Option.bind_some,
      hSize, hData, List.take_left, hKeyframe, hPosture, UInt64.ofNat_toNat, UInt16.ofNat_toNat]
    rfl

/-! ## The records of a file -/

section file

variable {bytes : Bytes} {offset : Nat}

theorem readUnitsAt_end (h : bytes.length < offset + 4) : readUnitsAt bytes offset = some [] := by
  rw [readUnitsAt, if_neg (by omega)]

/-- The loop takes a whole record and goes on behind it. -/
theorem readUnitsAt_record {unit : AccessUnit} {record rest : Bytes}
    (h : recordBytes unit = some record) (hBytes : bytes.drop offset = record ++ rest) :
    readUnitsAt bytes offset =
      (readUnitsAt bytes (offset + record.length)).map (recorded unit :: ·) := by
  have hSize := congrArg List.length hBytes
  rw [List.length_drop, List.length_append, length_record h, RECORD_HEADER_BYTES] at hSize
  obtain ⟨hLength, hUnit⟩ := readUnit_record h hBytes
  rw [length_record h, ← Nat.add_assoc]
  conv_lhs => rw [readUnitsAt]
  have hWhole : ¬ (RECORD_HEADER_BYTES + unit.data.length < 13 ∨
      bytes.length < offset + 4 + (RECORD_HEADER_BYTES + unit.data.length)) := by
    rw [RECORD_HEADER_BYTES]
    omega
  rw [if_pos (by omega), hLength]
  simp only [Option.bind_eq_bind, Option.bind_some, if_neg hWhole, hUnit]
  cases readUnitsAt bytes (offset + 4 + (RECORD_HEADER_BYTES + unit.data.length)) <;> rfl

/-- The loop stops at a record that is cut off. -/
theorem readUnitsAt_cut {unit : AccessUnit} {record : Bytes} {count : Nat}
    (h : recordBytes unit = some record) (hBytes : bytes.drop offset = record.take count)
    (hOffset : offset ≤ bytes.length) (hCount : count < record.length) :
    readUnitsAt bytes offset = some [] := by
  have hSize := congrArg List.length hBytes
  rw [List.length_drop, List.length_take] at hSize
  by_cases hShort : count < 4
  · exact readUnitsAt_end (by omega)
  obtain ⟨hLength, hRecord⟩ := recordBytes_eq_some h
  -- the length of the record is whole, and counts more bytes than there are
  have hField : bytes.drop offset = BigEndian.bytes 4 (RECORD_HEADER_BYTES + unit.data.length) ++
      (recordRest unit).take (count - 4) := by
    rw [hBytes, hRecord, List.take_append, BigEndian.length_bytes, List.take_of_length_le]
    rw [BigEndian.length_bytes]
    omega
  rw [length_record h] at hCount hSize
  rw [readUnitsAt, if_pos (by omega), readBE_field hField (by decide) hLength]
  simp only [Option.bind_eq_bind, Option.bind_some]
  rw [if_pos (Or.inr (by omega))]
  rfl

end file

theorem wholeUnits_cons (unit : AccessUnit) (units : List AccessUnit) (record : Bytes)
    (records : List Bytes) (size : Nat) :
    wholeUnits (unit :: units) (record :: records) size =
      if record.length ≤ size then
        recorded unit :: wholeUnits units records (size - record.length)
      else [] := by
  have hEnd (i : Nat) : ((record :: records).take (i + 1)).flatten.length =
      record.length + (records.take i).flatten.length := by
    rw [List.take_succ_cons, List.flatten_cons, List.length_append]
  have hFirst : ((record :: records).take (0 + 1)).flatten.length = record.length := by
    rw [hEnd, List.take_zero, List.flatten_nil, List.length_nil, Nat.add_zero]
  unfold wholeUnits
  rw [List.zipIdx_cons', List.filter_cons, List.filter_map]
  simp only [hFirst, decide_eq_true_eq, Function.comp_def, Prod.map, hEnd]
  split_ifs with hWhole
  · rw [List.map_cons, List.map_map]
    congr 2
    apply List.filter_congr
    intro entry _
    rw [decide_eq_decide]
    omega
  · rw [List.map_eq_nil_iff, List.map_eq_nil_iff, List.filter_eq_nil_iff]
    intro entry _
    rw [decide_eq_true_eq]
    omega

/-- The reader takes the units whose records are whole before a cut. -/
theorem readUnitsAt_truncated {bytes : Bytes} {units : List AccessUnit} :
    ∀ {records : List Bytes} {offset count : Nat}, units.mapM recordBytes = some records →
      offset ≤ bytes.length → bytes.drop offset = records.flatten.take count →
      readUnitsAt bytes offset = some (wholeUnits units records count) := by
  induction units with
  | nil =>
      intro records offset count hRecords hOffset hBytes
      obtain rfl : records = [] := by simpa using hRecords.symm
      have hEnd : bytes.length ≤ offset := by simpa using hBytes
      exact readUnitsAt_end (by omega)
  | cons unit units ih =>
      intro records offset count hRecords hOffset hBytes
      obtain ⟨record, hRecord, more, hMore, rfl⟩ : ∃ record, recordBytes unit = some record ∧
          ∃ more, units.mapM recordBytes = some more ∧ record :: more = records := by
        simpa [List.mapM_cons, Option.bind_eq_some_iff] using hRecords
      rw [List.flatten_cons] at hBytes
      rw [wholeUnits_cons]
      by_cases hWhole : record.length ≤ count
      · rw [List.take_append, List.take_of_length_le hWhole] at hBytes
        have hSize := congrArg List.length hBytes
        rw [List.length_drop, List.length_append] at hSize
        rw [if_pos hWhole, readUnitsAt_record hRecord hBytes,
          ih hMore (by omega) (drop_field hBytes rfl), Option.map_some]
      · rw [List.take_append_of_le_length (by omega)] at hBytes
        rw [if_neg hWhole, readUnitsAt_cut hRecord hBytes hOffset (by omega)]

/-! ## Any bytes -/

theorem readUnit_ends {bytes : Bytes} {offset length : Nat} (hLength : 13 ≤ length)
    (h : offset + 4 + length ≤ bytes.length) :
    ∃ unit, readUnit bytes offset length = some unit := by
  obtain ⟨flags, hFlags, -⟩ := readBE_isSome (offset + 4) 1 (show _ ≤ bytes.length by omega)
  obtain ⟨time, hTime, -⟩ := readBE_isSome (offset + 5) 8 (show _ ≤ bytes.length by omega)
  obtain ⟨width, hWidth, -⟩ := readBE_isSome (offset + 13) 2 (show _ ≤ bytes.length by omega)
  obtain ⟨height, hHeight, -⟩ := readBE_isSome (offset + 15) 2 (show _ ≤ bytes.length by omega)
  rw [readUnit, hFlags, hTime, hWidth, hHeight]
  exact ⟨_, rfl⟩

theorem readUnitsAt_ends (bytes : Bytes) (offset : Nat) :
    ∃ units, readUnitsAt bytes offset = some units := by
  induction hLeft : bytes.length - offset using Nat.strong_induction_on generalizing offset with
  | _ left ih =>
      by_cases hMore : offset + 4 ≤ bytes.length
      · obtain ⟨length, hLength, -⟩ := readBE_isSome offset 4 hMore
        rw [readUnitsAt, if_pos hMore, hLength]
        simp only [Option.bind_eq_bind, Option.bind_some]
        split_ifs with hStop
        · exact ⟨[], rfl⟩
        obtain ⟨unit, hUnit⟩ : ∃ unit, readUnit bytes offset length = some unit :=
          readUnit_ends (by omega) (by omega)
        obtain ⟨units, hUnits⟩ := ih _ (by omega) (offset + 4 + length) rfl
        rw [hUnit, hUnits]
        exact ⟨_, rfl⟩
      · exact ⟨[], readUnitsAt_end (by omega)⟩

/-- What a file that was cut at any byte is read as, and that no bytes are read past. -/
theorem longest_whole_prefix {units : List AccessUnit} {records : List Bytes}
    (h : units.mapM recordBytes = some records) (count : Nat) :
    readUnitsFrom (records.flatten.take count) = some (wholeUnits units records count) ∧
      ∀ bytes, ∃ read, readUnitsFrom bytes = some read :=
  ⟨readUnitsAt_truncated h (Nat.zero_le _) rfl, fun bytes => readUnitsAt_ends bytes 0⟩

def exampleUnit : AccessUnit where
  keyframe := true
  capturedAt := 0x4278ca9ac5c00000
  width := 640
  height := 480
  posture := some .folded
  artworkTurns := none
  data := [7, 8]

def exampleRecord : Bytes :=
  [0, 0, 0, 15, 3, 0x42, 0x78, 0xca, 0x9a, 0xc5, 0xc0, 0, 0, 2, 128, 1, 224, 7, 8]

/-- The second record of the file lacks its last byte. -/
theorem longest_whole_prefix_example :
    readUnitsFrom ([exampleRecord, exampleRecord].flatten.take 37) = some [exampleUnit] ∧
      ∀ bytes, ∃ read, readUnitsFrom bytes = some read := by
  have hRecords : [exampleUnit, exampleUnit].mapM recordBytes =
      some [exampleRecord, exampleRecord] := by decide
  exact longest_whole_prefix hRecords 37

end Stim.Footage
