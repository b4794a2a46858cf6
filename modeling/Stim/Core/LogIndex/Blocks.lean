import Mathlib.Data.List.Induction
import Stim.Core.LogIndex

/-!
# The blocks of an index

Blocks follow one another from the start of a generation, each ends with a line, and each says of
its records no more and no less than what they are.
-/

namespace Stim.Logs.LogIndex

variable (reading : Reading)

/-! ## Records of complete lines -/

theorem positions_append (start : Nat) (lines more : List (List UInt8)) :
    positions start (lines ++ more) =
      positions start lines ++
        positions (start + (lines.map fun line => line.length + 1).sum) more := by
  induction lines generalizing start with
  | nil => rfl
  | cons line lines ih =>
      rw [List.cons_append, positions, ih, positions, List.cons_append, List.map_cons,
        List.sum_cons]
      simp only [Nat.add_assoc]

variable {bytes : List UInt8}

/-- Complete lines take their bytes and a separator each. -/
theorem length_complete (h : Lines.rest Utf8.newline bytes = []) :
    ((Lines.complete Utf8.newline bytes).map fun line => line.length + 1).sum = bytes.length := by
  induction bytes using @Lines.line_induction _ _ Utf8.newline with
  | last bytes hnone =>
      rw [Lines.rest_of_not_mem hnone] at h
      rw [h]
      rfl
  | line line bytes hnone ih =>
      rw [Lines.rest_line] at h
      rw [Lines.complete_line hnone, List.map_cons, List.sum_cons, ih h, List.length_append,
        List.length_cons]
      omega

theorem recordsAt_append {buffer : List UInt8} (h : Lines.rest Utf8.newline buffer = [])
    (start : Nat) (more : List UInt8) :
    recordsAt reading start (buffer ++ more) =
      recordsAt reading start buffer ++ recordsAt reading (start + buffer.length) more := by
  rw [recordsAt, Lines.complete_append, h, List.nil_append, positions_append, length_complete h,
    List.filterMap_append]
  rfl

theorem positions_bounds {start : Nat} {lines : List (List UInt8)} {line : Nat × List UInt8}
    (h : line ∈ positions start lines) :
    start ≤ line.1 ∧ line.1 < start + (lines.map fun line => line.length + 1).sum := by
  induction lines generalizing start with
  | nil => cases h
  | cons line lines ih =>
      rw [List.map_cons, List.sum_cons]
      obtain rfl | hmem := List.mem_cons.mp h
      · dsimp only
        omega
      · have := ih hmem
        omega

theorem positions_increasing (start : Nat) (lines : List (List UInt8)) :
    ((positions start lines).map Prod.fst).Pairwise (· < ·) := by
  induction lines generalizing start with
  | nil => exact List.Pairwise.nil
  | cons line lines ih =>
      refine List.pairwise_cons.mpr ⟨fun later hlater => ?_, ih _⟩
      obtain ⟨entry, hentry, rfl⟩ := List.mem_map.mp hlater
      have := (positions_bounds hentry).1
      omega

theorem position_parseAt {line : Nat × List UInt8} {entry : Positioned}
    (h : parseAt reading line = some entry) : entry.position = line.1 := by
  obtain ⟨record, -, rfl⟩ := Option.map_eq_some_iff.mp h
  rfl

theorem recordsAt_bounds {start : Nat} {buffer : List UInt8}
    (hlines : Lines.rest Utf8.newline buffer = []) {entry : Positioned}
    (h : entry ∈ recordsAt reading start buffer) :
    start ≤ entry.position ∧ entry.position < start + buffer.length := by
  obtain ⟨line, hline, hparse⟩ := List.mem_filterMap.mp h
  rw [position_parseAt reading hparse, ← length_complete hlines]
  exact positions_bounds hline

theorem recordsAt_increasing (start : Nat) (buffer : List UInt8) :
    ((recordsAt reading start buffer).map Positioned.position).Pairwise (· < ·) := by
  have hlines := List.pairwise_map.mp
    (positions_increasing start (Lines.complete Utf8.newline buffer))
  refine List.pairwise_map.mpr ?_
  refine hlines.filterMap _ fun line line' hless entry hentry entry' hentry' => ?_
  rw [position_parseAt reading hentry, position_parseAt reading hentry']
  exact hless

/-! ## What a block says -/

/-- The records of a block. -/
def recordsOfBlock (bytes : List UInt8) (block : Block) : List Positioned :=
  recordsAt reading block.start (read bytes block.start (block.stop - block.start))

/-- What a block says is what its records say. -/
structure Summarises (block : Block) (records : List Positioned) : Prop where
  maxTs_bounds : ∀ entry ∈ records, (tsKey entry.record).le block.maxTs = true
  minTs_bounds : ∀ entry ∈ records, block.minTs.le (tsKey entry.record) = true
  maxTs_attained : block.maxTs = .negInfinity ∧ records = [] ∨
    ∃ entry ∈ records, tsKey entry.record = block.maxTs
  minTs_attained : block.minTs = .infinity ∧ records = [] ∨
    ∃ entry ∈ records, tsKey entry.record = block.minTs
  sources_mem : ∀ src, src ∈ block.sources ↔ ∃ entry ∈ records, entry.record.src = src
  levels_mem : ∀ level, level ∈ block.levels ↔ ∃ entry ∈ records, entry.record.level = level

theorem tsKey_ne_nan (record : NdjsonRecord) : tsKey record ≠ .nan := by
  unfold tsKey
  cases tsOf record <;> simp

theorem le_refl_of {a : Double} (h : a ≠ .nan) : a.le a = true := by
  cases a <;> simp_all [Double.le]

theorem le_trans_of {a b c : Double} (hab : a.le b = true) (hbc : b.le c = true) :
    a.le c = true := by
  cases a <;> cases b <;> cases c <;> simp_all [Double.le]
  exact Rat.le_trans hab hbc

variable {a b : Double}

theorem le_of_not_lt (ha : a ≠ .nan) (hb : b ≠ .nan) (h : a.lt b = false) : b.le a = true := by
  cases a <;> cases b
  case finite.finite x y => exact decide_eq_true (Rat.not_lt.mp (of_decide_eq_false h))
  all_goals simp_all [Double.le, Double.lt]

theorem le_of_lt' (h : a.lt b = true) : a.le b = true := by
  cases a <;> cases b <;> simp_all [Double.le, Double.lt]
  exact Rat.le_of_lt h

theorem maxOf_spec (ha : a ≠ .nan) (hb : b ≠ .nan) :
    a.le (maxOf a b) = true ∧ b.le (maxOf a b) = true := by
  unfold maxOf
  split_ifs with h
  · exact ⟨le_of_lt' h, le_refl_of hb⟩
  · exact ⟨le_refl_of ha, le_of_not_lt ha hb (by simpa using h)⟩

theorem minOf_spec (ha : a ≠ .nan) (hb : b ≠ .nan) :
    (minOf a b).le a = true ∧ (minOf a b).le b = true := by
  unfold minOf
  split_ifs with h
  · exact ⟨le_of_lt' h, le_refl_of hb⟩
  · exact ⟨le_refl_of ha, le_of_not_lt hb ha (by simpa using h)⟩

theorem mem_addValue {α : Type} [DecidableEq α] {anew : α → Bool} {values : List α} {v value : α} :
    v ∈ addValue anew values value ↔ v ∈ values ∨ v = value := by
  unfold addValue
  split_ifs with h
  · exact ⟨Or.inl, fun hor => hor.elim id fun heq => heq ▸ h.1⟩
  · simp

theorem summarises_nil (start stop : Nat) :
    Summarises ⟨start, stop, .negInfinity, .infinity, [], []⟩ [] where
  maxTs_bounds := by simp
  minTs_bounds := by simp
  maxTs_attained := Or.inl ⟨rfl, rfl⟩
  minTs_attained := Or.inl ⟨rfl, rfl⟩
  sources_mem := by simp
  levels_mem := by simp

variable {records : List Positioned} {block : Block}

theorem Summarises.maxTs_ne_nan (h : Summarises block records) : block.maxTs ≠ .nan := by
  obtain ⟨hnone, -⟩ | ⟨entry, -, hts⟩ := h.maxTs_attained
  · rw [hnone]
    simp
  · exact hts ▸ tsKey_ne_nan entry.record

theorem Summarises.minTs_ne_nan (h : Summarises block records) : block.minTs ≠ .nan := by
  obtain ⟨hnone, -⟩ | ⟨entry, -, hts⟩ := h.minTs_attained
  · rw [hnone]
    simp
  · exact hts ▸ tsKey_ne_nan entry.record

theorem maxOf_eq (a b : Double) : maxOf a b = a ∨ maxOf a b = b := by
  unfold maxOf
  split_ifs
  · exact Or.inr rfl
  · exact Or.inl rfl

theorem minOf_eq (a b : Double) : minOf a b = a ∨ minOf a b = b := by
  unfold minOf
  split_ifs
  · exact Or.inr rfl
  · exact Or.inl rfl

theorem maxOf_negInfinity (record : NdjsonRecord) :
    maxOf .negInfinity (tsKey record) = tsKey record := by
  unfold tsKey
  cases tsOf record <;> rfl

theorem minOf_infinity (record : NdjsonRecord) : minOf .infinity (tsKey record) = tsKey record := by
  unfold tsKey
  cases tsOf record <;> rfl

theorem mem_addValue_concat {α : Type} [DecidableEq α] {anew : α → Bool} {values : List α}
    {value : Positioned → α} (h : ∀ v, v ∈ values ↔ ∃ entry ∈ records, value entry = v)
    (entry : Positioned) (v : α) :
    v ∈ addValue anew values (value entry) ↔
      ∃ other ∈ records ++ [entry], value other = v := by
  simp only [mem_addValue, h, List.mem_append, List.mem_singleton]
  constructor
  · rintro (⟨other, hmem, hvalue⟩ | hnew)
    · exact ⟨other, Or.inl hmem, hvalue⟩
    · exact ⟨entry, Or.inr rfl, hnew.symm⟩
  · rintro ⟨other, hmem | rfl, hvalue⟩
    · exact Or.inl ⟨other, hmem, hvalue⟩
    · exact Or.inr hvalue.symm

/-- One more record. -/
theorem Summarises.concat (h : Summarises block records) (entry : Positioned) :
    Summarises (noteBlock block entry) (records ++ [entry]) := by
  have hmax := maxOf_spec h.maxTs_ne_nan (tsKey_ne_nan entry.record)
  have hmin := minOf_spec h.minTs_ne_nan (tsKey_ne_nan entry.record)
  have hentry : entry ∈ records ++ [entry] := List.mem_append_right _ (List.mem_singleton.mpr rfl)
  refine ⟨fun other hmem => ?_, fun other hmem => ?_, Or.inr ?_, Or.inr ?_,
    mem_addValue_concat h.sources_mem entry, mem_addValue_concat h.levels_mem entry⟩
  · obtain hold | hnew := List.mem_append.mp hmem
    · exact le_trans_of (h.maxTs_bounds other hold) hmax.1
    · rw [List.mem_singleton.mp hnew]
      exact hmax.2
  · obtain hold | hnew := List.mem_append.mp hmem
    · exact le_trans_of hmin.1 (h.minTs_bounds other hold)
    · rw [List.mem_singleton.mp hnew]
      exact hmin.2
  · obtain hold | hnew := maxOf_eq block.maxTs (tsKey entry.record)
    · obtain ⟨hnone, -⟩ | ⟨other, hother, hts⟩ := h.maxTs_attained
      · refine ⟨entry, hentry, ?_⟩
        rw [noteBlock, hnone, maxOf_negInfinity]
      · exact ⟨other, List.mem_append_left _ hother, hts.trans hold.symm⟩
    · exact ⟨entry, hentry, hnew.symm⟩
  · obtain hold | hnew := minOf_eq block.minTs (tsKey entry.record)
    · obtain ⟨hnone, -⟩ | ⟨other, hother, hts⟩ := h.minTs_attained
      · refine ⟨entry, hentry, ?_⟩
        rw [noteBlock, hnone, minOf_infinity]
      · exact ⟨other, List.mem_append_left _ hother, hts.trans hold.symm⟩
    · exact ⟨entry, hentry, hnew.symm⟩

theorem summarises_foldl (start stop : Nat) (records : List Positioned) :
    Summarises (records.foldl noteBlock ⟨start, stop, .negInfinity, .infinity, [], []⟩) records := by
  induction records using List.reverseRecOn with
  | nil => exact summarises_nil start stop
  | append_singleton records entry ih =>
      rw [List.foldl_concat]
      exact ih.concat entry

theorem foldl_noteBlock_bounds (block : Block) (records : List Positioned) :
    (records.foldl noteBlock block).start = block.start ∧
      (records.foldl noteBlock block).stop = block.stop := by
  induction records generalizing block with
  | nil => exact ⟨rfl, rfl⟩
  | cons entry records ih => exact ih (noteBlock block entry)

/-! ## Where blocks lie -/

/-- A block ends with a line, and says what its records say. -/
structure Placed (bytes : List UInt8) (block : Block) : Prop where
  start_lt : block.start < block.stop
  stop_le : block.stop ≤ bytes.length
  newline : bytes[block.stop - 1]? = some Utf8.newline
  summary : Summarises block (recordsOfBlock reading bytes block)

/-- Blocks that follow one another from one position to another. -/
def Tiles (bytes : List UInt8) : Nat → List Block → Nat → Prop
  | start, [], stop => start = stop
  | start, block :: blocks, stop =>
      block.start = start ∧ Placed reading bytes block ∧ Tiles bytes block.stop blocks stop

variable {reading}

theorem Tiles.append {start middle stop : Nat} {blocks more : List Block}
    (h : Tiles reading bytes start blocks middle) (hmore : Tiles reading bytes middle more stop) :
    Tiles reading bytes start (blocks ++ more) stop := by
  induction blocks generalizing start with
  | nil =>
      cases h
      exact hmore
  | cons block blocks ih => exact ⟨h.1, h.2.1, ih h.2.2⟩

theorem Tiles.of_concat {start stop : Nat} {blocks : List Block} {last : Block}
    (h : Tiles reading bytes start (blocks ++ [last]) stop) :
    Tiles reading bytes start blocks last.start ∧ Placed reading bytes last ∧ last.stop = stop := by
  induction blocks generalizing start with
  | nil => exact ⟨h.1.symm, h.2.1, h.2.2⟩
  | cons block blocks ih =>
      obtain ⟨htiles, hlast⟩ := ih h.2.2
      exact ⟨⟨h.1, h.2.1, htiles⟩, hlast⟩

theorem read_append {position length : Nat} (h : position + length ≤ bytes.length)
    (more : List UInt8) : read (bytes ++ more) position length = read bytes position length := by
  rw [read, read, List.drop_append_of_le_length (by omega),
    List.take_append_of_le_length (by rw [List.length_drop]; omega)]

theorem Placed.append (h : Placed reading bytes block) (more : List UInt8) :
    Placed reading (bytes ++ more) block where
  start_lt := h.start_lt
  stop_le := by
    have := h.stop_le
    rw [List.length_append]
    omega
  newline := by
    have hstop := h.stop_le
    have hstart := h.start_lt
    rw [List.getElem?_append_left (by omega)]
    exact h.newline
  summary := by
    have hstop := h.stop_le
    have hstart := h.start_lt
    rw [recordsOfBlock, read_append (by omega)]
    exact h.summary

theorem Tiles.grow {start stop : Nat} {blocks : List Block}
    (h : Tiles reading bytes start blocks stop) (more : List UInt8) :
    Tiles reading (bytes ++ more) start blocks stop := by
  induction blocks generalizing start with
  | nil => exact h
  | cons block blocks ih => exact ⟨h.1, h.2.1.append more, ih h.2.2⟩

/-- The block of complete lines that were read. -/
theorem placed_indexBlock {bytes buffer : List UInt8} {offset : Nat} (index : GenerationIndex)
    (hbuffer : buffer <+: bytes.drop offset) (hlines : Lines.rest Utf8.newline buffer = [])
    (hsome : buffer ≠ []) :
    (indexBlock reading index buffer offset).2.start = offset ∧
      (indexBlock reading index buffer offset).2.stop = offset + buffer.length ∧
      Placed reading bytes (indexBlock reading index buffer offset).2 := by
  obtain ⟨rest, hrest⟩ := hbuffer
  have hlength := congrArg List.length hrest
  rw [List.length_append, List.length_drop] at hlength
  have hpos := List.length_pos_of_ne_nil hsome
  obtain ⟨hstart, hstop⟩ := foldl_noteBlock_bounds
    ⟨offset, offset + buffer.length, .negInfinity, .infinity, [], []⟩
    (recordsAt reading offset buffer)
  refine ⟨hstart, hstop, ?_, ?_, ?_, ?_⟩
  · show Block.start (List.foldl _ _ _) < Block.stop (List.foldl _ _ _)
    rw [hstart, hstop]
    dsimp only
    omega
  · show Block.stop (List.foldl _ _ _) ≤ _
    rw [hstop]
    dsimp only
    omega
  · show bytes[Block.stop (List.foldl _ _ _) - 1]? = _
    rw [hstop]
    have hlast := ((Lines.rest_eq_nil_iff buffer).mp hlines).resolve_left hsome
    rw [List.getLast?_eq_getElem?] at hlast
    have hat : (bytes.drop offset)[buffer.length - 1]? = some Utf8.newline := by
      rw [← hrest, List.getElem?_append_left (by omega), hlast]
    rw [List.getElem?_drop] at hat
    dsimp only
    rw [show offset + buffer.length - 1 = offset + (buffer.length - 1) by omega, hat]
  · have hread : read bytes offset buffer.length = buffer := by
      rw [read, ← hrest, List.take_left]
    have hrecords : recordsOfBlock reading bytes (indexBlock reading index buffer offset).2 =
        recordsAt reading offset buffer := by
      show recordsAt reading (Block.start (List.foldl _ _ _)) (read bytes
        (Block.start (List.foldl _ _ _)) (Block.stop (List.foldl _ _ _) -
          Block.start (List.foldl _ _ _))) = _
      rw [hstart, hstop]
      dsimp only
      rw [Nat.add_sub_cancel_left, hread]
    rw [hrecords]
    exact summarises_foldl offset _ _

end Stim.Logs.LogIndex
