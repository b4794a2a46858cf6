import Mathlib.Algebra.Group.Nat.Defs
import Mathlib.Data.List.Induction
import Mathlib.Data.Nat.Basic

/-!
# Big-endian numbers

Natural numbers as bytes of a fixed width, most significant first, and the double-precision form
of the whole numbers that a double holds exactly.
-/

namespace BigEndian

/-- The last `width` bytes of a number. -/
def bytes : Nat → Nat → List UInt8
  | 0, _ => []
  | width + 1, n => bytes width (n / 256) ++ [UInt8.ofNat (n % 256)]

/-- The number that bytes stand for. -/
def value (data : List UInt8) : Nat := data.foldl (fun n byte => n * 256 + byte.toNat) 0

@[simp] theorem length_bytes (width n : Nat) : (bytes width n).length = width := by
  induction width generalizing n with
  | zero => rfl
  | succ width ih => simp [bytes, ih]

theorem value_bytes {width n : Nat} (h : n < 256 ^ width) : value (bytes width n) = n := by
  induction width generalizing n with
  | zero =>
      have hzero : n = 0 := by simpa using h
      subst hzero
      rfl
  | succ width ih =>
      have hhigh : n / 256 < 256 ^ width := by
        rw [Nat.pow_succ] at h
        exact Nat.div_lt_of_lt_mul (by rwa [Nat.mul_comm] at h)
      have hlow : (UInt8.ofNat (n % 256)).toNat = n % 256 := by
        rw [UInt8.toNat_ofNat']
        omega
      have hvalue : value (bytes width (n / 256)) = n / 256 := ih hhigh
      unfold value at hvalue ⊢
      rw [bytes, List.foldl_append, hvalue]
      simp only [List.foldl_cons, List.foldl_nil, hlow]
      omega

theorem value_concat (data : List UInt8) (byte : UInt8) :
    value (data ++ [byte]) = value data * 256 + byte.toNat := by
  rw [value, List.foldl_append]
  rfl

/-- Bytes are the number that they stand for, in their own width. -/
theorem bytes_value (data : List UInt8) : bytes data.length (value data) = data := by
  induction data using List.reverseRecOn with
  | nil => rfl
  | append_singleton data byte ih =>
      have hbyte : byte.toNat < 256 := byte.toNat_lt
      have hhigh : (value data * 256 + byte.toNat) / 256 = value data := by omega
      have hlow : (value data * 256 + byte.toNat) % 256 = byte.toNat := by omega
      rw [List.length_append, List.length_singleton, value_concat, bytes, hhigh, hlow, ih,
        UInt8.ofNat_toNat]

theorem value_lt (data : List UInt8) : value data < 256 ^ data.length := by
  induction data using List.reverseRecOn with
  | nil => exact Nat.one_pos
  | append_singleton data byte ih =>
      have hbyte : byte.toNat < 256 := byte.toNat_lt
      rw [value_concat, List.length_append, List.length_singleton, Nat.pow_succ]
      omega

/-! ## Doubles -/

/-- The bits of a whole number's double. -/
def doubleBits (n : Nat) : Nat :=
  if n = 0 then 0 else (1023 + n.log2) * 2 ^ 52 + (n * 2 ^ (52 - n.log2) - 2 ^ 52)

/-- The whole part of a double that is not negative. -/
def wholePart (bits : Nat) : Nat :=
  if bits = 0 then 0
  else (2 ^ 52 + bits % 2 ^ 52) * 2 ^ (bits / 2 ^ 52 - 1023) / 2 ^ 52

variable {n : Nat}

theorem log2_le (h : n < 2 ^ 53) (hzero : n ≠ 0) : n.log2 ≤ 52 := by
  have hlow : 2 ^ n.log2 ≤ n := Nat.log2_self_le hzero
  by_contra hlarge
  have : 2 ^ 53 ≤ 2 ^ n.log2 := Nat.pow_le_pow_right (by omega) (by omega)
  omega

/-- The leading one of a number, moved to the place of a double's hidden bit. -/
theorem fraction_bounds (h : n < 2 ^ 53) (hzero : n ≠ 0) :
    2 ^ 52 ≤ n * 2 ^ (52 - n.log2) ∧ n * 2 ^ (52 - n.log2) < 2 * 2 ^ 52 := by
  have hexp := log2_le h hzero
  have hsplit : 2 ^ n.log2 * 2 ^ (52 - n.log2) = 2 ^ 52 := by
    rw [← Nat.pow_add]
    congr 1
    omega
  constructor
  · rw [← hsplit]
    exact Nat.mul_le_mul_right _ (Nat.log2_self_le hzero)
  · rw [← hsplit, ← Nat.mul_assoc, ← Nat.pow_succ']
    exact Nat.mul_lt_mul_of_pos_right Nat.lt_log2_self (Nat.two_pow_pos _)

theorem wholePart_doubleBits (h : n < 2 ^ 53) : wholePart (doubleBits n) = n := by
  by_cases hzero : n = 0
  · subst hzero
    rfl
  have hexp := log2_le h hzero
  obtain ⟨hlead, hfraction⟩ := fraction_bounds h hzero
  have hbits : doubleBits n =
      (1023 + n.log2) * 2 ^ 52 + (n * 2 ^ (52 - n.log2) - 2 ^ 52) := if_neg hzero
  have hdiv : doubleBits n / 2 ^ 52 - 1023 = n.log2 := by omega
  have hmod : 2 ^ 52 + doubleBits n % 2 ^ 52 = n * 2 ^ (52 - n.log2) := by omega
  have hpos : doubleBits n ≠ 0 := by omega
  rw [wholePart, if_neg hpos, hmod, hdiv, Nat.mul_assoc, ← Nat.pow_add,
    show 52 - n.log2 + n.log2 = 52 by omega]
  exact Nat.mul_div_cancel n (Nat.two_pow_pos 52)

theorem doubleBits_lt (h : n < 2 ^ 53) : doubleBits n < 256 ^ 8 := by
  unfold doubleBits
  split_ifs with hzero
  · decide
  · have hexp := log2_le h hzero
    obtain ⟨-, hfraction⟩ := fraction_bounds h hzero
    omega

end BigEndian
