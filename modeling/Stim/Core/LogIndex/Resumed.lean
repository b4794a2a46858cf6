import Stim.Core.LogIndex.Blocks
import Stim.Lib.Absorbing

/-!
# An index that goes on from a cached one

What an index keeps of records is a fold over them.  An index that resumes takes the records of
its last block a second time: its launch attempts were dropped, and the rest absorbs them.  So an
index is the index of the generation's lines, whichever sizes it was built at before.

A slot that is an array or an object is not absorbed: it is kept once more each time.
-/

namespace Stim.Logs.LogIndex

variable {reading : Reading}

/-! ## What records add -/

def addMinTs (minTs : Option Rat) (entry : Positioned) : Option Rat :=
  noteMinTs minTs entry.record

def addMarker (reading : Reading) (markers : OrderedMap String Marker) (entry : Positioned) :
    OrderedMap String Marker := noteMarker reading markers entry.record

def addSlot (slots : List JsonValue) (entry : Positioned) : List JsonValue :=
  addValue isReference slots (slotOf entry.record)

/-- One index is another one and what some records add to it. -/
structure Adds (reading : Reading) (before after : GenerationIndex) (records : List Positioned) :
    Prop where
  minTs_eq : after.minTs = records.foldl addMinTs before.minTs
  markers_eq : after.markers = records.foldl (addMarker reading) before.markers
  slots_eq : after.slots = records.foldl addSlot before.slots
  launchAttempts_eq : after.launchAttempts =
    before.launchAttempts ++ records.filter fun entry => isLaunchAttempt entry.record

theorem Adds.trans {a b c : GenerationIndex} {records more : List Positioned}
    (hab : Adds reading a b records) (hbc : Adds reading b c more) :
    Adds reading a c (records ++ more) where
  minTs_eq := by rw [hbc.minTs_eq, hab.minTs_eq, List.foldl_append]
  markers_eq := by rw [hbc.markers_eq, hab.markers_eq, List.foldl_append]
  slots_eq := by rw [hbc.slots_eq, hab.slots_eq, List.foldl_append]
  launchAttempts_eq := by
    rw [hbc.launchAttempts_eq, hab.launchAttempts_eq, List.filter_append, List.append_assoc]

theorem adds_nil (index : GenerationIndex) : Adds reading index index [] :=
  ⟨rfl, rfl, rfl, (List.append_nil _).symm⟩

theorem adds_note (index : GenerationIndex) (entry : Positioned) :
    Adds reading index (note reading index entry) [entry] where
  minTs_eq := rfl
  markers_eq := rfl
  slots_eq := rfl
  launchAttempts_eq := by
    unfold note
    cases h : isLaunchAttempt entry.record <;> simp [h]

theorem adds_foldl (index : GenerationIndex) (records : List Positioned) :
    Adds reading index (records.foldl (note reading) index) records := by
  induction records generalizing index with
  | nil => exact adds_nil index
  | cons entry records ih => exact (adds_note index entry).trans (ih _)

theorem adds_indexBlock (index : GenerationIndex) (buffer : List UInt8) (start : Nat)
    (blocks : List Block) :
    Adds reading index { (indexBlock reading index buffer start).1 with blocks := blocks }
      (recordsAt reading start buffer) := by
  have h : Adds reading index _ _ := adds_foldl index (recordsAt reading start buffer)
  exact ⟨h.minTs_eq, h.markers_eq, h.slots_eq, h.launchAttempts_eq⟩

theorem blocks_indexBlock (index : GenerationIndex) (buffer : List UInt8) (start : Nat) :
    (indexBlock reading index buffer start).1.blocks = index.blocks := by
  show GenerationIndex.blocks (List.foldl _ _ _) = _
  induction recordsAt reading start buffer generalizing index with
  | nil => rfl
  | cons entry records ih => exact ih (note reading index entry)

/-! ## Reading blocks -/

/-- The lines that are read from an offset on. -/
def remaining (bytes : List UInt8) (size offset : Nat) : List UInt8 :=
  Lines.through Utf8.newline ((bytes.take size).drop offset)

theorem read_asked (bytes : List UInt8) (size offset doublings : Nat) :
    read bytes offset (asked size offset doublings) =
      ((bytes.take size).drop offset).take (BLOCK_BYTES * 2 ^ doublings) := by
  rw [read, List.drop_take, List.take_take]
  rfl

theorem through_isInit (bytes : List UInt8) : Lines.through Utf8.newline bytes <+: bytes :=
  ⟨_, Lines.through_append_rest bytes⟩

theorem linesAt_isInit (bytes : List UInt8) (size offset doublings : Nat) :
    linesAt bytes size offset doublings <+: (bytes.take size).drop offset := by
  rw [linesAt, read_asked]
  exact (through_isInit _).trans (List.take_prefix _ _)

variable {bytes : List UInt8}

/-- What is left when no line ends in the bytes that are left. -/
theorem remaining_atEnd {size offset doublings : Nat} (hsize : size ≤ bytes.length)
    (hnone : linesAt bytes size offset doublings = []) (hend : AtEnd bytes size offset doublings) :
    remaining bytes size offset = [] := by
  have hlength : ((bytes.take size).drop offset).length = size - offset := by
    rw [List.length_drop, List.length_take]
    omega
  have hall : size - offset ≤ BLOCK_BYTES * 2 ^ doublings := by
    rw [AtEnd, read_asked, List.length_take, hlength, asked] at hend
    omega
  rw [linesAt, read_asked, List.take_of_length_le (by omega)] at hnone
  exact hnone

theorem remaining_step (bytes : List UInt8) (size offset doublings : Nat) :
    remaining bytes size offset = linesAt bytes size offset doublings ++
      remaining bytes size (offset + (linesAt bytes size offset doublings).length) := by
  obtain ⟨rest, hrest⟩ := linesAt_isInit bytes size offset doublings
  have hlines : Lines.rest Utf8.newline (linesAt bytes size offset doublings) = [] :=
    Lines.rest_through _
  rw [remaining, ← hrest, Lines.through_append hlines, remaining, ← List.drop_drop, ← hrest,
    List.drop_left]

/-- What reading to a size leaves: blocks of the lines that were left, and their records. -/
structure ReadTo (reading : Reading) (bytes : List UInt8) (size offset : Nat)
    (before after : GenerationIndex) (stop : Nat) : Prop where
  stop_eq : stop = offset + (remaining bytes size offset).length
  blocks : ∃ blocks, after.blocks = before.blocks ++ blocks ∧
    Tiles reading bytes offset blocks stop
  adds : Adds reading before after (recordsAt reading offset (remaining bytes size offset))

theorem readTo_done {size offset : Nat} (h : remaining bytes size offset = [])
    (index : GenerationIndex) : ReadTo reading bytes size offset index index offset := by
  refine ⟨by rw [h]; rfl, ⟨[], (List.append_nil _).symm, rfl⟩, ?_⟩
  rw [h]
  exact adds_nil index

/-- Another block, and what is read after it. -/
theorem ReadTo.block {size offset doublings stop : Nat} {next after : GenerationIndex}
    (hsome : linesAt bytes size offset doublings ≠ [])
    (h : ReadTo reading bytes size (offset + (linesAt bytes size offset doublings).length)
      { (indexBlock reading next (linesAt bytes size offset doublings) offset).1 with
        blocks := (indexBlock reading next (linesAt bytes size offset doublings) offset).1.blocks ++
          [(indexBlock reading next (linesAt bytes size offset doublings) offset).2] } after stop) :
    ReadTo reading bytes size offset next after stop := by
  have hlines : Lines.rest Utf8.newline (linesAt bytes size offset doublings) = [] :=
    Lines.rest_through _
  have hprefix : linesAt bytes size offset doublings <+: bytes.drop offset :=
    (linesAt_isInit bytes size offset doublings).trans (by
      rw [List.drop_take]
      exact List.take_prefix _ _)
  obtain ⟨hstart, hstop, hplaced⟩ : _ ∧ _ ∧ Placed reading bytes _ :=
    placed_indexBlock next hprefix hlines hsome
  have hremaining := remaining_step bytes size offset doublings
  refine ⟨?_, ?_, ?_⟩
  · rw [h.stop_eq, hremaining, List.length_append, Nat.add_assoc]
  · obtain ⟨blocks, hblocks, htiles⟩ := h.blocks
    refine ⟨(indexBlock reading next (linesAt bytes size offset doublings) offset).2 :: blocks,
      ?_, hstart, hplaced, ?_⟩
    · rw [hblocks, blocks_indexBlock, List.append_assoc, List.singleton_append]
    · rw [hstop]
      exact htiles
  · rw [hremaining, recordsAt_append reading hlines]
    exact (adds_indexBlock next _ offset _).trans h.adds

variable {size : Nat}

theorem readBlocks_readTo (hsize : size ≤ bytes.length) (offset doublings : Nat)
    (next : GenerationIndex) :
    ReadTo reading bytes size offset next (readBlocks reading bytes size offset doublings next).1
      (readBlocks reading bytes size offset doublings next).2 := by
  fun_induction readBlocks reading bytes size offset doublings next with
  | case1 offset doublings next _ hlines hend =>
      exact readTo_done (remaining_atEnd hsize hlines hend) next
  | case2 offset doublings next _ hlines hend ih => exact ih
  | case3 offset doublings next _ hlines indexed ih => exact ih.block hlines
  | case4 offset doublings next hstop =>
      refine readTo_done ?_ next
      rw [remaining, List.drop_of_length_le (by rw [List.length_take]; omega)]
      rfl

/-! ## An index of lines -/

/-- The slots that a set takes once. -/
def plain (slots : List JsonValue) : List JsonValue := slots.filter fun slot => !isReference slot

/-- The records of the lines up to a position. -/
def recordsTo (reading : Reading) (bytes : List UInt8) (stop : Nat) : List Positioned :=
  recordsAt reading 0 (bytes.take stop)

/-- An index of the lines up to its size: the blocks tile them, and the rest is what their records
add to an empty index, except that a slot that is an array or an object may be there more often. -/
structure Indexed (reading : Reading) (bytes : List UInt8) (index : GenerationIndex) : Prop where
  size_le : index.size ≤ bytes.length
  lines : Lines.rest Utf8.newline (bytes.take index.size) = []
  head_eq : index.head = read bytes 0 (min VALIDATE_BYTES index.size)
  tail_eq : index.tail = read bytes (index.size - VALIDATE_BYTES) (min VALIDATE_BYTES index.size)
  tiles : Tiles reading bytes 0 index.blocks index.size
  minTs_eq : index.minTs =
    (recordsTo reading bytes index.size).foldl addMinTs none
  markers_eq : index.markers =
    (recordsTo reading bytes index.size).foldl (addMarker reading) .empty
  plain_eq : plain index.slots =
    plain ((recordsTo reading bytes index.size).foldl addSlot [])
  slots_mem : ∀ slot, slot ∈ index.slots ↔
    slot ∈ (recordsTo reading bytes index.size).foldl addSlot []
  slots_sublist : ((recordsTo reading bytes index.size).foldl addSlot []).Sublist index.slots
  launchAttempts_eq : index.launchAttempts =
    (recordsTo reading bytes index.size).filter fun entry =>
      isLaunchAttempt entry.record

variable {index : GenerationIndex}

/-- More bytes leave an index what it is. -/
theorem Indexed.append (h : Indexed reading bytes index) (more : List UInt8) :
    Indexed reading (bytes ++ more) index := by
  have htake : (bytes ++ more).take index.size = bytes.take index.size :=
    List.take_append_of_le_length h.size_le
  have hsize := h.size_le
  refine ⟨?_, ?_, ?_, ?_, h.tiles.grow more, ?_, ?_, ?_, ?_, ?_, ?_⟩
  · rw [List.length_append]
    omega
  · rw [htake]
    exact h.lines
  · rw [read_append (by omega)]
    exact h.head_eq
  · rw [read_append (by omega)]
    exact h.tail_eq
  all_goals rw [recordsTo, htake]
  · exact h.minTs_eq
  · exact h.markers_eq
  · exact h.plain_eq
  · exact h.slots_mem
  · exact h.slots_sublist
  · exact h.launchAttempts_eq

/-! ## Taking records twice -/

def MinTsKnown (minTs : Option Rat) (entry : Positioned) : Prop :=
  ∀ ts, tsOf entry.record = some ts → ∃ least, minTs = some least ∧ ¬ ts < least

theorem addMinTs_known {minTs : Option Rat} {entry : Positioned} (h : MinTsKnown minTs entry) :
    addMinTs minTs entry = minTs := by
  unfold addMinTs noteMinTs
  cases hts : tsOf entry.record with
  | none => rfl
  | some ts =>
      obtain ⟨least, rfl, hleast⟩ := h ts hts
      simp [hleast]

theorem minTsKnown_self (minTs : Option Rat) (entry : Positioned) :
    MinTsKnown (addMinTs minTs entry) entry := by
  intro ts hts
  unfold addMinTs noteMinTs
  rw [hts]
  cases minTs with
  | none => exact ⟨ts, rfl, Rat.lt_irrefl⟩
  | some least =>
      dsimp only
      split_ifs with hless
      · exact ⟨ts, rfl, Rat.lt_irrefl⟩
      · exact ⟨least, rfl, hless⟩

theorem minTsKnown_keep (minTs : Option Rat) (entry other : Positioned)
    (h : MinTsKnown minTs entry) : MinTsKnown (addMinTs minTs other) entry := by
  intro ts hts
  obtain ⟨least, rfl, hleast⟩ := h ts hts
  unfold addMinTs noteMinTs
  cases tsOf other.record with
  | none => exact ⟨least, rfl, hleast⟩
  | some ts' =>
      dsimp only
      split_ifs with hless
      · refine ⟨ts', rfl, fun hbefore => hleast (Rat.not_le.mp fun hle => ?_)⟩
        exact Rat.not_le.mpr hless (Rat.le_trans hle (Rat.le_of_lt hbefore))
      · exact ⟨least, rfl, hleast⟩

/-- A marker is known with a time that is not before its own. -/
def MarkerKnown (reading : Reading) (markers : OrderedMap String Marker) (entry : Positioned) :
    Prop :=
  isMarker entry.record = true → ∃ known,
    markers.get (markerKey reading entry.record).1 = some known ∧
      (markerTs known).lt (markerTs (markerKey reading entry.record).2) = false

theorem addMarker_known {markers : OrderedMap String Marker} {entry : Positioned}
    (h : MarkerKnown reading markers entry) : addMarker reading markers entry = markers := by
  unfold addMarker noteMarker
  split_ifs with hmarker
  · obtain ⟨known, hget, hts⟩ := h hmarker
    simp [keepNewer, hget, hts]
  · rfl

theorem lt_irrefl_of (a : Double) : a.lt a = false := by
  cases a <;> simp [Double.lt]

theorem not_lt_of_lt {a b c : Double} (hab : a.lt b = true) (hac : a.lt c = false) :
    b.lt c = false := by
  cases a <;> cases b <;> cases c
  case finite.finite.finite x y z =>
    have hzx : z ≤ x := Rat.not_lt.mp (of_decide_eq_false hac)
    have hxy : x ≤ y := Rat.le_of_lt (of_decide_eq_true hab)
    exact decide_eq_false (Rat.not_lt.mpr (Rat.le_trans hzx hxy))
  all_goals simp_all [Double.lt]

theorem get_keepNewer (markers : OrderedMap String Marker) (key : String) (marker : Marker) :
    ∃ known, (keepNewer markers key marker).get key = some known ∧
      (markerTs known).lt (markerTs marker) = false := by
  unfold keepNewer
  cases hget : markers.get key with
  | none => exact ⟨marker, OrderedMap.get_set_self, lt_irrefl_of _⟩
  | some known =>
      dsimp only
      split_ifs with hnewer
      · exact ⟨marker, OrderedMap.get_set_self, lt_irrefl_of _⟩
      · exact ⟨known, hget, by simpa using hnewer⟩

/-- What is kept for a key is only replaced by what is newer. -/
theorem keepNewer_keep {markers : OrderedMap String Marker} {key : String} {known : Marker}
    (h : markers.get key = some known) (key' : String) (marker : Marker) :
    ∃ kept, (keepNewer markers key' marker).get key = some kept ∧
      (kept = known ∨ (markerTs known).lt (markerTs kept) = true) := by
  by_cases hkey : key = key'
  · subst hkey
    unfold keepNewer
    rw [h]
    dsimp only
    split_ifs with hnewer
    · exact ⟨marker, OrderedMap.get_set_self, Or.inr hnewer⟩
    · exact ⟨known, h, Or.inl rfl⟩
  · have hother : ∀ value, (markers.set key' value).get key = some known := fun value =>
      (OrderedMap.get_set_of_ne hkey).trans h
    unfold keepNewer
    cases markers.get key' with
    | none => exact ⟨known, hother marker, Or.inl rfl⟩
    | some current =>
        dsimp only
        split_ifs
        · exact ⟨known, hother marker, Or.inl rfl⟩
        · exact ⟨known, h, Or.inl rfl⟩

theorem markerKnown_self (markers : OrderedMap String Marker) (entry : Positioned) :
    MarkerKnown reading (addMarker reading markers entry) entry := by
  intro hmarker
  rw [addMarker, noteMarker, if_pos hmarker]
  exact get_keepNewer _ _ _

theorem markerKnown_keep (markers : OrderedMap String Marker) (entry other : Positioned)
    (h : MarkerKnown reading markers entry) :
    MarkerKnown reading (addMarker reading markers other) entry := by
  intro hmarker
  obtain ⟨known, hget, hts⟩ := h hmarker
  unfold addMarker noteMarker
  split_ifs
  · obtain ⟨kept, hkept, rfl | hnewer⟩ := keepNewer_keep hget (markerKey reading other.record).1
      (markerKey reading other.record).2
    · exact ⟨kept, hkept, hts⟩
    · exact ⟨kept, hkept, not_lt_of_lt hnewer hts⟩
  · exact ⟨known, hget, hts⟩

def addPlain (slots : List JsonValue) (entry : Positioned) : List JsonValue :=
  if isReference (slotOf entry.record) = true ∨ slotOf entry.record ∈ slots then slots
  else slots ++ [slotOf entry.record]

theorem plain_addSlot (slots : List JsonValue) (entry : Positioned) :
    plain (addSlot slots entry) = addPlain (plain slots) entry := by
  unfold addSlot addValue addPlain
  by_cases hreference : isReference (slotOf entry.record) = true
  · simp [plain, hreference]
  · by_cases hmem : slotOf entry.record ∈ slots
    · simp [plain, hreference, hmem]
    · simp [plain, hreference, hmem]

theorem plain_foldl (slots : List JsonValue) (records : List Positioned) :
    plain (records.foldl addSlot slots) = records.foldl addPlain (plain slots) := by
  induction records generalizing slots with
  | nil => rfl
  | cons entry records ih => rw [List.foldl_cons, ih, plain_addSlot, List.foldl_cons]

theorem mem_foldl_addSlot {slots : List JsonValue} {records : List Positioned} {slot : JsonValue} :
    slot ∈ records.foldl addSlot slots ↔
      slot ∈ slots ∨ ∃ entry ∈ records, slotOf entry.record = slot := by
  induction records generalizing slots with
  | nil => simp
  | cons entry records ih =>
      rw [List.foldl_cons, ih, addSlot, mem_addValue, List.exists_mem_cons_iff, or_assoc,
        eq_comm (a := slot)]

theorem sublist_addSlot (slots : List JsonValue) (entry : Positioned) :
    slots.Sublist (addSlot slots entry) := by
  unfold addSlot addValue
  split_ifs
  · exact List.Sublist.refl slots
  · exact List.sublist_append_left slots _

theorem sublist_foldl_addSlot (slots : List JsonValue) (records : List Positioned) :
    slots.Sublist (records.foldl addSlot slots) := by
  induction records generalizing slots with
  | nil => exact List.Sublist.refl slots
  | cons entry records ih => exact (sublist_addSlot slots entry).trans (ih _)

/-- Sets that differ in arrays and objects only take a record alike. -/
theorem addSlot_sublist {slots more : List JsonValue} (h : slots.Sublist more)
    (hplain : plain slots = plain more) (entry : Positioned) :
    (addSlot slots entry).Sublist (addSlot more entry) := by
  have hmem : isReference (slotOf entry.record) = false →
      (slotOf entry.record ∈ slots ↔ slotOf entry.record ∈ more) := by
    intro hreference
    have hiff := congrArg (slotOf entry.record ∈ ·) hplain
    simpa [plain, hreference] using hiff
  unfold addSlot addValue
  by_cases hreference : isReference (slotOf entry.record) = true
  · rw [if_neg (by simp [hreference]), if_neg (by simp [hreference])]
    exact h.append_right _
  · rw [Bool.not_eq_true] at hreference
    simp only [hmem hreference]
    split_ifs
    · exact h
    · exact h.append_right _

theorem foldl_addSlot_sublist {slots more : List JsonValue} (h : slots.Sublist more)
    (hplain : plain slots = plain more) (records : List Positioned) :
    (records.foldl addSlot slots).Sublist (records.foldl addSlot more) := by
  induction records generalizing slots more with
  | nil => exact h
  | cons entry records ih =>
      refine ih (addSlot_sublist h hplain entry) ?_
      rw [plain_addSlot, plain_addSlot, hplain]

def SlotKnown (slots : List JsonValue) (entry : Positioned) : Prop :=
  isReference (slotOf entry.record) = true ∨ slotOf entry.record ∈ slots

theorem slotKnown_self (slots : List JsonValue) (entry : Positioned) :
    SlotKnown (addPlain slots entry) entry := by
  unfold addPlain SlotKnown
  split_ifs with h
  · exact h
  · simp

theorem slotKnown_keep (slots : List JsonValue) (entry other : Positioned)
    (h : SlotKnown slots entry) : SlotKnown (addPlain slots other) entry := by
  unfold addPlain
  split_ifs
  · exact h
  · exact h.imp_right fun hmem => List.mem_append_left _ hmem

theorem addPlain_known (slots : List JsonValue) (entry : Positioned) (h : SlotKnown slots entry) :
    addPlain slots entry = slots := if_pos h

/-! ## Building on an index -/

/-- An index whose last lines are read again: the rest of what it keeps is what all its lines
add. -/
structure Resumable (reading : Reading) (bytes : List UInt8) (index : GenerationIndex)
    (again : List UInt8) : Prop where
  size_le : index.size + again.length ≤ bytes.length
  lines : Lines.rest Utf8.newline (bytes.take index.size) = []
  lines_again : Lines.rest Utf8.newline again = []
  again_prefix : again <+: bytes.drop index.size
  tiles : Tiles reading bytes 0 index.blocks index.size
  minTs_eq : index.minTs =
    (recordsTo reading bytes (index.size + again.length)).foldl addMinTs none
  markers_eq : index.markers =
    (recordsTo reading bytes (index.size + again.length)).foldl (addMarker reading) .empty
  plain_eq : plain index.slots =
    plain ((recordsTo reading bytes (index.size + again.length)).foldl addSlot [])
  slots_mem : ∀ slot, slot ∈ index.slots ↔
    slot ∈ (recordsTo reading bytes (index.size + again.length)).foldl addSlot []
  slots_sublist :
    ((recordsTo reading bytes (index.size + again.length)).foldl addSlot []).Sublist index.slots
  launchAttempts_eq : index.launchAttempts =
    (recordsTo reading bytes index.size).filter fun entry => isLaunchAttempt entry.record

theorem resumable_emptyIndex (bytes : List UInt8) :
    Resumable reading bytes emptyIndex [] where
  size_le := Nat.zero_le _
  lines := rfl
  lines_again := rfl
  again_prefix := List.nil_prefix
  tiles := rfl
  minTs_eq := rfl
  markers_eq := rfl
  plain_eq := rfl
  slots_mem := fun _ => Iff.rfl
  slots_sublist := List.Sublist.refl _
  launchAttempts_eq := rfl

theorem take_add_of_isInit {bytes buffer : List UInt8} {start : Nat}
    (h : buffer <+: bytes.drop start) :
    bytes.take (start + buffer.length) = bytes.take start ++ buffer := by
  obtain ⟨rest, hrest⟩ := h
  rw [List.take_add, ← hrest, List.take_left]

theorem recordsTo_add {bytes buffer : List UInt8} {start : Nat} (hstart : start ≤ bytes.length)
    (hlines : Lines.rest Utf8.newline (bytes.take start) = []) (h : buffer <+: bytes.drop start) :
    recordsTo reading bytes (start + buffer.length) =
      recordsTo reading bytes start ++ recordsAt reading start buffer := by
  rw [recordsTo, take_add_of_isInit h, recordsAt_append reading hlines, recordsTo,
    List.length_take, Nat.zero_add, Nat.min_eq_left hstart]

/-- The lines that are read again come first among those that are left. -/
theorem remaining_again {bytes again : List UInt8} {size start : Nat}
    (hsize : start + again.length ≤ size) (hlines : Lines.rest Utf8.newline again = [])
    (h : again <+: bytes.drop start) :
    remaining bytes size start = again ++ remaining bytes size (start + again.length) := by
  obtain ⟨rest, hrest⟩ := h
  have hsplit : (bytes.take size).drop start =
      again ++ (bytes.take size).drop (start + again.length) := by
    rw [List.drop_take, List.drop_take, ← List.drop_drop, ← hrest, List.take_append,
      List.drop_left, List.take_of_length_le (by omega), Nat.sub_sub]
  rw [remaining, hsplit, Lines.through_append hlines, remaining]

theorem remaining_isInit (bytes : List UInt8) (size start : Nat) :
    remaining bytes size start <+: bytes.drop start := by
  refine (through_isInit _).trans ?_
  rw [List.drop_take]
  exact List.take_prefix _ _

theorem length_through_take {size start : Nat} (hstart : start ≤ size)
    (hsize : size ≤ bytes.length) (hlines : Lines.rest Utf8.newline (bytes.take start) = []) :
    (Lines.through Utf8.newline (bytes.take size)).length =
      start + (remaining bytes size start).length := by
  have hsplit : bytes.take size = bytes.take start ++ (bytes.take size).drop start := by
    have htake := List.take_append_drop start (bytes.take size)
    rw [List.take_take, Nat.min_eq_left hstart] at htake
    exact htake.symm
  rw [hsplit, Lines.through_append hlines, List.length_append, List.length_take,
    Nat.min_eq_left (by omega), remaining]

/-- An index that reads on is the index of the lines up to the size. -/
theorem extended_indexed {bytes again : List UInt8} (h : Resumable reading bytes index again)
    (hagain : index.size + again.length ≤ size) (hsize : size ≤ bytes.length) :
    Indexed reading bytes (extended reading bytes size index) ∧
      (extended reading bytes size index).size =
        (Lines.through Utf8.newline (bytes.take size)).length := by
  have hstart : index.size ≤ bytes.length := by
    have := h.size_le
    omega
  have hread : ReadTo reading bytes size index.size index _ _ :=
    readBlocks_readTo hsize index.size 0 index
  obtain ⟨blocks, hblocks, htiles⟩ := hread.blocks
  have hadds := hread.adds
  have hsizeEq : (extended reading bytes size index).size =
      index.size + (remaining bytes size index.size).length := hread.stop_eq
  -- the records that are read: those that are read again, and those after them
  have hremaining := remaining_again hagain h.lines_again h.again_prefix
  have hprefix := remaining_isInit bytes size index.size
  have hagainRecords : recordsTo reading bytes _ = _ :=
    recordsTo_add hstart h.lines h.again_prefix
  have hallRecords : recordsTo reading bytes _ = _ := recordsTo_add hstart h.lines hprefix
  rw [← hsizeEq, hremaining, recordsAt_append reading h.lines_again, ← List.append_assoc,
    ← hagainRecords] at hallRecords
  rw [hremaining, recordsAt_append reading h.lines_again] at hadds
  generalize recordsAt reading index.size again = twice at hagainRecords hallRecords hadds
  generalize recordsAt reading (index.size + again.length) _ = new at hallRecords hadds
  have hlines : Lines.rest Utf8.newline (bytes.take (extended reading bytes size index).size) = [] := by
    rw [hsizeEq, take_add_of_isInit hprefix, Lines.rest_append, h.lines, List.nil_append]
    exact Lines.rest_through _
  refine ⟨⟨?_, hlines, rfl, rfl, ?_, ?_, ?_, ?_, ?_, ?_, ?_⟩, ?_⟩
  · have := hprefix.length_le
    rw [List.length_drop] at this
    omega
  · show Tiles reading bytes 0 (readBlocks reading bytes size index.size 0 index).1.blocks _
    rw [hblocks]
    exact h.tiles.append htiles
  · show (readBlocks reading bytes size index.size 0 index).1.minTs = _
    rw [hadds.minTs_eq, h.minTs_eq, hallRecords, hagainRecords]
    exact Absorbing.foldl_resumed minTsKnown_self minTsKnown_keep
      (fun _ _ => addMinTs_known) _ _ _ _
  · show (readBlocks reading bytes size index.size 0 index).1.markers = _
    rw [hadds.markers_eq, h.markers_eq, hallRecords, hagainRecords]
    exact Absorbing.foldl_resumed markerKnown_self markerKnown_keep
      (fun _ _ => addMarker_known) _ _ _ _
  · show plain (readBlocks reading bytes size index.size 0 index).1.slots = _
    rw [hadds.slots_eq, plain_foldl, h.plain_eq, hallRecords, hagainRecords, plain_foldl,
      plain_foldl]
    exact Absorbing.foldl_resumed slotKnown_self slotKnown_keep addPlain_known _ _ _ _
  · intro slot
    show slot ∈ (readBlocks reading bytes size index.size 0 index).1.slots ↔ _
    rw [hadds.slots_eq, mem_foldl_addSlot, h.slots_mem, mem_foldl_addSlot, hallRecords,
      mem_foldl_addSlot, hagainRecords]
    simp only [List.mem_append, List.not_mem_nil, false_or]
    grind
  · show List.Sublist _ (readBlocks reading bytes size index.size 0 index).1.slots
    have hsublist := h.slots_sublist
    have hplain := h.plain_eq
    rw [hagainRecords] at hsublist hplain
    rw [hadds.slots_eq, hallRecords, hagainRecords,
      List.foldl_append (l := recordsTo reading bytes index.size ++ twice),
      List.foldl_append (l := twice)]
    apply foldl_addSlot_sublist (hsublist.trans (sublist_foldl_addSlot _ twice))
    rw [plain_foldl _ twice, hplain, plain_foldl]
    exact (Absorbing.foldl_again slotKnown_self slotKnown_keep addPlain_known _ _ _).symm
  · show (readBlocks reading bytes size index.size 0 index).1.launchAttempts = _
    rw [hadds.launchAttempts_eq, h.launchAttempts_eq, hallRecords, hagainRecords,
      ← List.filter_append, List.append_assoc]
  · rw [hsizeEq, length_through_take (by omega) hsize h.lines]

/-- A set that takes each record once. -/
theorem extended_slots (hsize : size ≤ bytes.length) :
    (extended reading bytes size emptyIndex).slots =
      (recordsTo reading bytes (extended reading bytes size emptyIndex).size).foldl addSlot [] := by
  have hread : ReadTo reading bytes size 0 emptyIndex _ _ := readBlocks_readTo hsize 0 0 emptyIndex
  have hall : recordsTo reading bytes (0 + _) = _ :=
    recordsTo_add (Nat.zero_le _) rfl (remaining_isInit bytes size 0)
  have hstop : (extended reading bytes size emptyIndex).size =
      0 + (remaining bytes size 0).length := hread.stop_eq
  rw [hstop, hall]
  exact hread.adds.slots_eq

/-! ## Resuming -/

theorem tiles_lines {start stop : Nat} {blocks : List Block}
    (h : Tiles reading bytes start blocks stop)
    (hstart : Lines.rest Utf8.newline (bytes.take start) = []) :
    Lines.rest Utf8.newline (bytes.take stop) = [] := by
  induction blocks generalizing start with
  | nil => exact h ▸ hstart
  | cons block blocks ih =>
      refine ih h.2.2 ((Lines.rest_eq_nil_iff _).mpr (Or.inr ?_))
      have hless := h.2.1.start_lt
      have hle := h.2.1.stop_le
      rw [List.getLast?_eq_getElem?, List.length_take, Nat.min_eq_left hle,
        List.getElem?_take_of_lt (by omega), h.2.1.newline]

theorem lines_of_placed {block : Block} (h : Placed reading bytes block) :
    Lines.rest Utf8.newline (read bytes block.start (block.stop - block.start)) = [] := by
  have hless := h.start_lt
  have hle := h.stop_le
  refine (Lines.rest_eq_nil_iff _).mpr (Or.inr ?_)
  rw [List.getLast?_eq_getElem?, read, List.length_take, List.length_drop,
    List.getElem?_take_of_lt (by omega), List.getElem?_drop, ← h.newline]
  congr 1
  omega

/-- The launch attempts before a line. -/
theorem launchAttempts_before {bytes again : List UInt8} {start : Nat}
    (hstart : start ≤ bytes.length) (hlines : Lines.rest Utf8.newline (bytes.take start) = [])
    (hagain : Lines.rest Utf8.newline again = []) (h : again <+: bytes.drop start) :
    ((recordsTo reading bytes (start + again.length)).filter fun entry =>
        isLaunchAttempt entry.record).filter (fun attempt => attempt.position < start) =
      (recordsTo reading bytes start).filter fun entry => isLaunchAttempt entry.record := by
  rw [recordsTo_add hstart hlines h, List.filter_append, List.filter_append]
  have hbefore : ((recordsTo reading bytes start).filter fun entry =>
      isLaunchAttempt entry.record).filter (fun attempt => attempt.position < start) =
        (recordsTo reading bytes start).filter fun entry => isLaunchAttempt entry.record := by
    refine List.filter_eq_self.mpr fun entry hentry => ?_
    have hbounds := recordsAt_bounds reading hlines (List.mem_filter.mp hentry).1
    rw [List.length_take] at hbounds
    exact decide_eq_true (by omega)
  have hafter : ((recordsAt reading start again).filter fun entry =>
      isLaunchAttempt entry.record).filter (fun attempt => attempt.position < start) = [] := by
    refine List.filter_eq_nil_iff.mpr fun entry hentry => ?_
    have hbounds := recordsAt_bounds reading hagain (List.mem_filter.mp hentry).1
    simpa using hbounds.1
  rw [hbefore, hafter, List.append_nil]

/-- An index whose last block is kept or dropped can be read on from there. -/
theorem resumable_resumeFrom (h : Indexed reading bytes index) : ∃ again,
      Resumable reading bytes (resumeFrom index) again ∧
        (resumeFrom index).size + again.length = index.size := by
  have hkept : Resumable reading bytes index [] :=
    ⟨h.size_le, h.lines, rfl, List.nil_prefix, h.tiles, h.minTs_eq, h.markers_eq, h.plain_eq,
      h.slots_mem, h.slots_sublist, h.launchAttempts_eq⟩
  unfold resumeFrom
  cases hlast : index.blocks.getLast? with
  | none => exact ⟨[], hkept, rfl⟩
  | some last =>
      dsimp only
      split_ifs with hlong
      · exact ⟨[], hkept, rfl⟩
      · obtain ⟨htiles, hplaced, hstop⟩ : Tiles reading bytes 0 index.blocks.dropLast last.start ∧
            Placed reading bytes last ∧ last.stop = index.size := by
          refine Tiles.of_concat ?_
          rw [List.dropLast_append_getLast? last hlast]
          exact h.tiles
        have hless := hplaced.start_lt
        have hle := h.size_le
        have hlength : (read bytes last.start (last.stop - last.start)).length =
            last.stop - last.start := by
          rw [read, List.length_take, List.length_drop]
          omega
        have hend : last.start + (read bytes last.start (last.stop - last.start)).length =
            index.size := by omega
        have hlines := tiles_lines htiles rfl
        have hagain : Lines.rest Utf8.newline
            (read bytes last.start (last.stop - last.start)) = [] := lines_of_placed hplaced
        refine ⟨read bytes last.start (last.stop - last.start), ⟨?_, hlines, hagain,
          List.take_prefix _ _, htiles, ?_, ?_, ?_, ?_, ?_, ?_⟩, hend⟩
        · dsimp only
          omega
        all_goals dsimp only
        · rw [hend]
          exact h.minTs_eq
        · rw [hend]
          exact h.markers_eq
        · rw [hend]
          exact h.plain_eq
        · rw [hend]
          exact h.slots_mem
        · rw [hend]
          exact h.slots_sublist
        · rw [h.launchAttempts_eq, ← hend]
          exact launchAttempts_before (by omega) hlines hagain (List.take_prefix _ _)

/-! ## Building -/

/-- The index that is built is the index of the lines up to the size, whatever was cached. -/
theorem buildGenerationIndex_indexed {cached : Option GenerationIndex}
    (hcached : ∀ index ∈ cached, Indexed reading bytes index) (hsize : size ≤ bytes.length) :
    Indexed reading bytes (buildGenerationIndex reading bytes cached size) ∧
      (buildGenerationIndex reading bytes cached size).size =
        (Lines.through Utf8.newline (bytes.take size)).length := by
  unfold buildGenerationIndex
  cases hknown : cached.filter fun index => stillExtends bytes index size with
  | none => exact extended_indexed (resumable_emptyIndex bytes) (Nat.zero_le _) hsize
  | some known =>
      rw [Option.filter_eq_some_iff] at hknown
      have hIndexed := hcached known hknown.1
      have hle : known.size ≤ size := by
        have hextends := hknown.2
        unfold stillExtends at hextends
        split_ifs at hextends with hshort
        omega
      dsimp only
      split_ifs with hsame
      · refine ⟨hIndexed, ?_⟩
        rw [← hsame, Lines.through_eq_self hIndexed.lines, List.length_take,
          Nat.min_eq_left hIndexed.size_le]
      · obtain ⟨again, hresumable, hend⟩ := resumable_resumeFrom hIndexed
        exact extended_indexed hresumable (by omega) hsize

/-- Two indexes that hold the same of the same lines, but for the arrays and objects that the first
holds more than once. -/
structure SameIndex (index fresh : GenerationIndex) : Prop where
  size_eq : index.size = fresh.size
  head_eq : index.head = fresh.head
  tail_eq : index.tail = fresh.tail
  minTs_eq : index.minTs = fresh.minTs
  markers_eq : index.markers = fresh.markers
  plain_eq : plain index.slots = plain fresh.slots
  slots_mem : ∀ slot, slot ∈ index.slots ↔ slot ∈ fresh.slots
  slots_sublist : fresh.slots.Sublist index.slots
  launchAttempts_eq : index.launchAttempts = fresh.launchAttempts

theorem Indexed.same {index fresh : GenerationIndex} (h : Indexed reading bytes index)
    (hfresh : Indexed reading bytes fresh) (hsize : index.size = fresh.size)
    (hslots : fresh.slots = (recordsTo reading bytes fresh.size).foldl addSlot []) :
    SameIndex index fresh where
  size_eq := hsize
  head_eq := by rw [h.head_eq, hfresh.head_eq, hsize]
  tail_eq := by rw [h.tail_eq, hfresh.tail_eq, hsize]
  minTs_eq := by rw [h.minTs_eq, hfresh.minTs_eq, hsize]
  markers_eq := by rw [h.markers_eq, hfresh.markers_eq, hsize]
  plain_eq := by rw [h.plain_eq, hfresh.plain_eq, hsize]
  slots_mem := fun slot => by rw [h.slots_mem, hfresh.slots_mem, hsize]
  slots_sublist := by rw [hslots, ← hsize]; exact h.slots_sublist
  launchAttempts_eq := by rw [h.launchAttempts_eq, hfresh.launchAttempts_eq, hsize]

theorem Indexed.launchAttempts_increasing (h : Indexed reading bytes index) :
    (index.launchAttempts.map Positioned.position).Pairwise (· < ·) := by
  rw [h.launchAttempts_eq, List.pairwise_map]
  exact (List.pairwise_map.mp (recordsAt_increasing reading 0 _)).filter _

/-! ## Runs -/

/-- What is cached, and what a view began with, are indexes of the lines of their generation. -/
structure Sound (reading : Reading) (s : Indexes) : Prop where
  cache : ∀ identity index, s.cache.get identity = some index →
    Indexed reading (s.files identity) index
  cached : ∀ identity building, s.building identity = some building →
    building.size ≤ (s.files identity).length ∧
      ∀ index ∈ building.cached, Indexed reading (s.files identity) index

theorem sound_noIndexes : Sound reading noIndexes where
  cache := fun identity index h => by cases h
  cached := fun identity building h => by cases h

theorem get_dropFirst {ν : Type} {map : OrderedMap String ν} {count : Nat} {key : String} {value : ν}
    (h : (dropFirst count map).get key = some value) : map.get key = some value :=
  OrderedMap.get_eq_some_iff.mpr (List.mem_of_mem_drop (OrderedMap.get_eq_some_iff.mp h))

theorem get_cacheWith {cache : OrderedMap String GenerationIndex} {identity key : String}
    {index found : GenerationIndex} (h : (cacheWith cache identity index).get key = some found) :
    key = identity ∧ found = index ∨ cache.get key = some found := by
  have hget := get_dropFirst h
  by_cases hkey : key = identity
  · subst hkey
    rw [OrderedMap.get_set_self] at hget
    exact Or.inl ⟨rfl, (Option.some.inj hget).symm⟩
  · rw [OrderedMap.get_set_of_ne hkey, OrderedMap.get_delete_of_ne hkey] at hget
    exact Or.inr hget

theorem building_kept {building : String → Option Building} {identity key : String}
    {other : Building} (h : Function.update building identity none key = some other) :
    building key = some other := by
  by_cases hkey : key = identity
  · subst hkey
    rw [Function.update_self] at h
    cases h
  · rwa [Function.update_of_ne hkey] at h

theorem step_sound {s t : Indexes} {action : Action} (h : Sound reading s)
    (hStep : step reading s action = some t) : Sound reading t := by
  cases action with
  | append identity bytes =>
      cases hStep
      have hgrow : ∀ key index, Indexed reading (s.files key) index →
          Indexed reading (Function.update s.files identity (s.files identity ++ bytes) key) index := by
        intro key index hIndexed
        by_cases hkey : key = identity
        · subst hkey
          rw [Function.update_self]
          exact hIndexed.append bytes
        · rw [Function.update_of_ne hkey]
          exact hIndexed
      have hlength : ∀ key, (s.files key).length ≤
          (Function.update s.files identity (s.files identity ++ bytes) key).length := by
        intro key
        by_cases hkey : key = identity
        · subst hkey
          rw [Function.update_self, List.length_append]
          omega
        · rw [Function.update_of_ne hkey]
      refine ⟨fun key index hget => hgrow key index (h.cache key index hget),
        fun key building hbuilding => ?_⟩
      obtain ⟨hsize, hcached⟩ := h.cached key building hbuilding
      exact ⟨hsize.trans (hlength key), fun index hmem => hgrow key index (hcached index hmem)⟩
  | start identity size =>
      obtain ⟨⟨-, hsize⟩, hsome⟩ := Option.ite_none_right_eq_some.mp hStep
      cases hsome
      refine ⟨h.cache, fun key building hbuilding => ?_⟩
      dsimp only at hbuilding ⊢
      by_cases hkey : key = identity
      · subst hkey
        rw [Function.update_self] at hbuilding
        cases hbuilding
        exact ⟨hsize, fun index hmem => h.cache key index hmem⟩
      · rw [Function.update_of_ne hkey] at hbuilding
        exact h.cached key building hbuilding
  | finish identity =>
      obtain ⟨index, hbuilt, rfl⟩ := Option.map_eq_some_iff.mp hStep
      obtain ⟨building, hbuilding, rfl⟩ := Option.map_eq_some_iff.mp hbuilt
      obtain ⟨hsize, hcached⟩ := h.cached identity building hbuilding
      refine ⟨fun key found hget => ?_, fun key other hother => ?_⟩
      · obtain ⟨rfl, rfl⟩ | hold := get_cacheWith hget
        · exact (buildGenerationIndex_indexed hcached hsize).1
        · exact h.cache key found hold
      · exact h.cached key other (building_kept hother)
  | cancel identity =>
      cases hStep
      exact ⟨h.cache, fun key other hother => h.cached key other (building_kept hother)⟩

/-- Whatever was appended and indexed before, the index that a view builds has blocks that follow
one another up to the last line within the view's size, and it says what an index says that is
built anew at that size.  Building ends, for any bytes: it is a total function. -/
theorem built_eq_fresh {actions : List Action} {s : Indexes} {identity : String}
    {building : Building} (hRun : Machine.run (step reading) noIndexes actions = some s)
    (hBuilding : s.building identity = some building) :
    let index :=
      buildGenerationIndex reading (s.files identity) building.cached building.size
    index.size =
        (Lines.through Utf8.newline ((s.files identity).take building.size)).length ∧
      Tiles reading (s.files identity) 0 index.blocks index.size ∧
      SameIndex index (buildGenerationIndex reading (s.files identity) none building.size) ∧
      (index.launchAttempts.map Positioned.position).Pairwise (· < ·) := by
  have hSound : Sound reading s :=
    Machine.invariant_run (fun _ _ _ => step_sound) sound_noIndexes hRun
  obtain ⟨hsize, hcached⟩ := hSound.cached identity building hBuilding
  obtain ⟨hIndexed, hlines⟩ := buildGenerationIndex_indexed hcached hsize
  have hnone : ∀ index ∈ (none : Option GenerationIndex),
      Indexed reading (s.files identity) index := by simp
  obtain ⟨hFresh, hfreshLines⟩ := buildGenerationIndex_indexed hnone hsize
  exact ⟨hlines, hIndexed.tiles, hIndexed.same hFresh (hlines.trans hfreshLines.symm) (extended_slots hsize),
    hIndexed.launchAttempts_increasing⟩

/-- A log in which one line is a record, with an object for its slot. -/
def objectSlots : Reading where
  parse := fun text =>
    if text = "\x7b\"slot\":\x7b\x7d\x7d".toList then
      some (.object (OrderedMap.empty.set "slot" (.ref 0)))
    else none
  runtime := ⟨fun _ => "", id⟩
  stringify := fun _ _ _ => ""

/-- The record's line is indexed, and then indexed again with an empty line that follows it. -/
def indexedTwice : List Action :=
  [.append "device" (Utf8.encode "\x7b\"slot\":\x7b\x7d\x7d\n".toList), .start "device" 12,
    .finish "device", .append "device" [Utf8.newline], .start "device" 13]

theorem built_eq_fresh_indexedTwice : ∃ s building,
    Machine.run (step objectSlots) noIndexes indexedTwice = some s ∧
      s.building "device" = some building ∧
      SameIndex
        (buildGenerationIndex objectSlots (s.files "device") building.cached building.size)
        (buildGenerationIndex objectSlots (s.files "device") none building.size) :=
  ⟨_, _, rfl, rfl, (built_eq_fresh
    (show Machine.run (step objectSlots) noIndexes indexedTwice = some _ from rfl) rfl).2.2.1⟩

theorem not_slots_eq_fresh : ¬ ∀ (reading : Reading) (actions : List Action) (s : Indexes)
    (identity : String) (building : Building),
    Machine.run (step reading) noIndexes actions = some s →
      s.building identity = some building →
      (buildGenerationIndex reading (s.files identity) building.cached building.size).slots =
        (buildGenerationIndex reading (s.files identity) none building.size).slots := by
  intro h
  have hsame := h objectSlots indexedTwice _ "device" _ rfl rfl
  exact absurd (congrArg List.length hsame) (by decide +kernel)

end Stim.Logs.LogIndex
