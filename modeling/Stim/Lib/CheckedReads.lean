import Stim.Lib.BigEndian

/-!
# Reads that are checked

Reading a number of a fixed width at an offset of a buffer, with no answer where the buffer ends
before the number does.
-/

namespace CheckedReads

variable {data rest : List UInt8} {offset width : Nat}

/-- The bytes at an offset, if the buffer has them all. -/
def slice (data : List UInt8) (offset width : Nat) : Option (List UInt8) :=
  if offset + width ≤ data.length then some ((data.drop offset).take width) else none

/-- A number, most significant byte first. -/
def readBE (data : List UInt8) (offset width : Nat) : Option Nat :=
  (slice data offset width).map BigEndian.value

/-- A number, least significant byte first. -/
def readLE (data : List UInt8) (offset width : Nat) : Option Nat :=
  (slice data offset width).map fun bytes => BigEndian.value bytes.reverse

/-- A number's bytes, least significant first. -/
def bytesLE (width n : Nat) : List UInt8 := (BigEndian.bytes width n).reverse

@[simp] theorem length_bytesLE (width n : Nat) : (bytesLE width n).length = width := by
  rw [bytesLE, List.length_reverse, BigEndian.length_bytes]

theorem slice_isSome {data : List UInt8} {offset width : Nat} (h : offset + width ≤ data.length) :
    ∃ bytes, slice data offset width = some bytes ∧ bytes.length = width := by
  refine ⟨_, if_pos h, ?_⟩
  rw [List.length_take, List.length_drop]
  omega

theorem readBE_isSome (offset width : Nat) (h : offset + width ≤ data.length) :
    ∃ n, readBE data offset width = some n ∧ n < 256 ^ width := by
  obtain ⟨bytes, hBytes, hLength⟩ := slice_isSome h
  refine ⟨BigEndian.value bytes, by rw [readBE, hBytes]; rfl, ?_⟩
  rw [← hLength]
  exact BigEndian.value_lt bytes

theorem readLE_isSome (offset width : Nat) (h : offset + width ≤ data.length) :
    ∃ n, readLE data offset width = some n ∧ n < 256 ^ width := by
  obtain ⟨bytes, hBytes, hLength⟩ := slice_isSome h
  refine ⟨BigEndian.value bytes.reverse, by rw [readLE, hBytes]; rfl, ?_⟩
  rw [← hLength, ← List.length_reverse]
  exact BigEndian.value_lt bytes.reverse

theorem readLE_lt {n : Nat} (h : readLE data offset width = some n) : n < 256 ^ width := by
  by_cases hFits : offset + width ≤ data.length
  · obtain ⟨m, hm, hLess⟩ := readLE_isSome offset width hFits
    rw [hm] at h
    exact Option.some.inj h ▸ hLess
  · rw [readLE, slice, if_neg hFits] at h
    cases h

/-! ## Fields one behind the other -/

/-- The bytes behind a field. -/
theorem drop_field {bytes : List UInt8} (h : data.drop offset = bytes ++ rest)
    (hWidth : bytes.length = width) : data.drop (offset + width) = rest := by
  rw [← List.drop_drop, h]
  exact List.drop_left' hWidth

theorem slice_field {bytes : List UInt8} (h : data.drop offset = bytes ++ rest)
    (hWidth : bytes.length = width) (hOffset : offset ≤ data.length) :
    slice data offset width = some bytes := by
  have hLength := congrArg List.length h
  rw [List.length_drop, List.length_append] at hLength
  rw [slice, if_pos (by omega), h, List.take_left' hWidth]

theorem readBE_field {n : Nat} (h : data.drop offset = BigEndian.bytes width n ++ rest)
    (hWidth : 0 < width) (hn : n < 256 ^ width) : readBE data offset width = some n := by
  have hLength := congrArg List.length h
  rw [List.length_drop, List.length_append, BigEndian.length_bytes] at hLength
  rw [readBE, slice_field h (BigEndian.length_bytes width n) (by omega), Option.map_some,
    BigEndian.value_bytes hn]

theorem readLE_field {n : Nat} (h : data.drop offset = bytesLE width n ++ rest)
    (hWidth : 0 < width) (hn : n < 256 ^ width) : readLE data offset width = some n := by
  have hLength := congrArg List.length h
  rw [List.length_drop, List.length_append, length_bytesLE] at hLength
  rw [readLE, slice_field h (length_bytesLE width n) (by omega), Option.map_some, bytesLE,
    List.reverse_reverse, BigEndian.value_bytes hn]

/-! ## Reads of a part -/

/-- What is read from a part stands in the whole, as far behind as the part does. -/
theorem slice_slice {part : List UInt8} {start size : Nat} (h : slice data start size = some part)
    (hFits : offset + width ≤ size) : slice part offset width = slice data (start + offset) width := by
  unfold slice at h
  split_ifs at h with hSize
  obtain rfl := Option.some.inj h
  rw [slice, slice, if_pos (by rw [List.length_take, List.length_drop]; omega), if_pos (by omega),
    List.drop_take, List.take_take, List.drop_drop, Nat.min_eq_left (by omega)]

theorem readLE_slice {part : List UInt8} {start size : Nat} (h : slice data start size = some part)
    (hFits : offset + width ≤ size) :
    readLE part offset width = readLE data (start + offset) width := by
  rw [readLE, readLE, slice_slice h hFits]

end CheckedReads
