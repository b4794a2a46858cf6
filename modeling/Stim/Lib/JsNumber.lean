import Mathlib.Data.Int.Log
import Mathlib.Data.Nat.Digits.Defs
import Mathlib.Data.List.TakeWhile
import Mathlib.Data.Rat.Floor
import Stim.Lib.Whitespace

/-!
# JavaScript numbers in strings

`toNumber` is `Number(text)`: white space is trimmed, and decimal numerals, the prefixed numerals
and `Infinity` are read and rounded to the nearest double.  `decimalString` is `String(n)` of a
whole number below `1e21`.  Negative zero is zero here.
-/

namespace Stim

inductive JsNumber where
  | nan
  | infinite (negative : Bool)
  | finite (q : ℚ)
  deriving DecidableEq

namespace JsNumber

open Whitespace

/-! ## Rounding -/

/-- The whole number nearest to `q`, the even one of two. -/
def nearest (q : ℚ) : Int :=
  let low := q.floor
  if q - low < 1 / 2 then low
  else if 1 / 2 < q - low then low + 1
  else if low % 2 = 0 then low else low + 1

/-- The double nearest to a positive number. -/
def roundPositive (q : ℚ) : ℚ :=
  let exponent := max (Int.log 2 q - 52) (-1074)
  nearest (q / (2 : ℚ) ^ exponent) * (2 : ℚ) ^ exponent

/-- The double nearest to a number; whole numbers up to `2 ^ 53` are doubles. -/
def round (q : ℚ) : JsNumber :=
  if q.den = 1 ∧ q.num.natAbs ≤ 2 ^ 53 then .finite q
  else
    let magnitude := roundPositive |q|
    if 2 ^ 1024 ≤ magnitude then .infinite (q < 0)
    else .finite (if q < 0 then -magnitude else magnitude)

/-! ## Reading -/

def isDigit (u : UInt16) : Bool := 0x30 ≤ u.toNat && u.toNat ≤ 0x39

/-- The value of a digit in a base up to sixteen. -/
def digitValue (u : UInt16) : Option Nat :=
  if isDigit u then some (u.toNat - 0x30)
  else if 0x61 ≤ u.toNat ∧ u.toNat ≤ 0x66 then some (u.toNat - 87)
  else if 0x41 ≤ u.toNat ∧ u.toNat ≤ 0x46 then some (u.toNat - 55)
  else none

def wholeValue (base : Nat) (digits : JsString) : Nat :=
  digits.foldl (fun n u => base * n + (digitValue u).getD 0) 0

/-- The power of ten that follows the digits of a decimal numeral. -/
def exponentOf (text : JsString) : Option Int :=
  match text with
  | [] => some 0
  | e :: rest =>
      if e = 0x65 ∨ e = 0x45 then
        match rest with
        | [] => none
        | sign :: digits =>
            let signed := sign = 0x2B ∨ sign = 0x2D
            let digits := if signed then digits else sign :: digits
            if digits ≠ [] ∧ digits.all isDigit then
              some (if sign = 0x2D then -(wholeValue 10 digits) else wholeValue 10 digits)
            else none
      else none

/-- The digits behind a decimal point, and what follows them. -/
def fractionOf (text : JsString) : JsString × JsString :=
  match text with
  | [] => ([], [])
  | point :: rest =>
      if point = 0x2E then (rest.takeWhile isDigit, rest.dropWhile isDigit) else ([], point :: rest)

/-- An unsigned decimal numeral. -/
def decimalValue (text : JsString) : Option ℚ :=
  let whole := text.takeWhile isDigit
  let (fraction, rest) := fractionOf (text.dropWhile isDigit)
  if whole = [] ∧ fraction = [] then none
  else (exponentOf rest).map fun (exponent : Int) =>
    (wholeValue 10 (whole ++ fraction) : ℚ) * (10 : ℚ) ^ (exponent - (fraction.length : Int))

def unsigned (text : JsString) (negative : Bool) : JsNumber :=
  if text = JsString.ofString "Infinity" then .infinite negative
  else match decimalValue text with
    | none => .nan
    | some q => round (if negative then -q else q)

/-- A numeral behind `0x`, `0o` or `0b`. -/
def prefixed (base : Nat) (digits : JsString) : JsNumber :=
  if digits ≠ [] ∧ digits.all (fun u => (digitValue u).any (· < base)) then
    round (wholeValue base digits)
  else .nan

/-- `Number(text)` -/
def toNumber (text : JsString) : JsNumber :=
  match trimUnits text with
  | [] => .finite 0
  | [u] => unsigned [u] false
  | u :: v :: rest =>
      if u = 0x30 ∧ (v = 0x78 ∨ v = 0x58) then prefixed 16 rest
      else if u = 0x30 ∧ (v = 0x6F ∨ v = 0x4F) then prefixed 8 rest
      else if u = 0x30 ∧ (v = 0x62 ∨ v = 0x42) then prefixed 2 rest
      else if u = 0x2B then unsigned (v :: rest) false
      else if u = 0x2D then unsigned (v :: rest) true
      else unsigned (u :: v :: rest) false

/-- `Number.isInteger(n) ? n : null` -/
def integer : JsNumber → Option Int
  | .finite q => if q.den = 1 then some q.num else none
  | _ => none

/-! ## Writing -/

/-- `String(n)` -/
def decimalString (n : Nat) : JsString :=
  if n = 0 then [0x30] else (Nat.digits 10 n).reverse.map fun d => UInt16.ofNat (0x30 + d)

/-! ## What is written is read back -/

theorem isDigit_ofNat {d : Nat} (h : d < 10) : isDigit (UInt16.ofNat (0x30 + d)) = true := by
  rw [isDigit, UInt16.toNat_ofNat', Bool.and_eq_true, decide_eq_true_eq, decide_eq_true_eq]
  omega

theorem digitValue_ofNat {d : Nat} (h : d < 10) :
    digitValue (UInt16.ofNat (0x30 + d)) = some d := by
  rw [digitValue, if_pos (isDigit_ofNat h), UInt16.toNat_ofNat']
  congr 1
  omega

theorem isDigit_of_mem_decimalString {n : Nat} {u : UInt16} (h : u ∈ decimalString n) :
    isDigit u = true := by
  unfold decimalString at h
  split at h
  · rw [List.mem_singleton.mp h]
    decide
  · obtain ⟨d, hd, rfl⟩ := List.mem_map.mp h
    exact isDigit_ofNat (Nat.digits_lt_base (by omega) (List.mem_reverse.mp hd))

theorem decimalString_ne_nil (n : Nat) : decimalString n ≠ [] := by
  unfold decimalString
  split
  · exact List.cons_ne_nil _ _
  · next h =>
    rw [Ne, List.map_eq_nil_iff, List.reverse_eq_nil_iff]
    exact Nat.digits_ne_nil_iff_ne_zero.mpr h

theorem wholeValue_decimalString (n : Nat) : wholeValue 10 (decimalString n) = n := by
  unfold decimalString
  split
  · next h => rw [h]; rfl
  · have hfold : ∀ digits : List Nat, (∀ d ∈ digits, d < 10) →
        wholeValue 10 (digits.reverse.map fun d => UInt16.ofNat (0x30 + d)) =
          Nat.ofDigits 10 digits := by
      intro digits hdigits
      rw [wholeValue, List.foldl_map, List.foldl_reverse]
      induction digits with
      | nil => rfl
      | cons d digits ih =>
          rw [List.foldr_cons, ih fun e he => hdigits e (List.mem_cons_of_mem _ he),
            digitValue_ofNat (hdigits d List.mem_cons_self), Nat.ofDigits_cons, Option.getD_some]
          omega
    rw [hfold _ fun d hd => Nat.digits_lt_base (by omega) hd, Nat.ofDigits_digits]

theorem isSpaceUnit_of_isDigit {u : UInt16} (h : isDigit u = true) : isSpaceUnit u = false := by
  rw [isDigit, Bool.and_eq_true, decide_eq_true_eq, decide_eq_true_eq] at h
  simp only [isSpaceUnit, Bool.or_eq_false_iff, Bool.and_eq_false_iff, decide_eq_false_iff_not,
    List.contains_eq_mem]
  constructor
  · simp only [List.mem_cons, List.not_mem_nil, or_false]
    omega
  · omega

theorem trimmed_decimalString (n : Nat) : Trimmed (decimalString n) := by
  constructor
  · intro u hu
    exact isSpaceUnit_of_isDigit (isDigit_of_mem_decimalString (List.mem_of_head? hu))
  · intro u hu
    exact isSpaceUnit_of_isDigit (isDigit_of_mem_decimalString (List.mem_of_getLast? hu))

theorem takeWhile_decimalString (n : Nat) :
    (decimalString n).takeWhile isDigit = decimalString n := by
  rw [List.takeWhile_eq_self_iff]
  exact fun u hu => isDigit_of_mem_decimalString hu

theorem dropWhile_decimalString (n : Nat) : (decimalString n).dropWhile isDigit = [] := by
  rw [List.dropWhile_eq_nil_iff]
  exact fun u hu => isDigit_of_mem_decimalString hu

theorem unsigned_decimalString {n : Nat} (h : n ≤ 2 ^ 53) :
    unsigned (decimalString n) false = .finite n := by
  have hname : decimalString n ≠ JsString.ofString "Infinity" := by
    intro heq
    have hdigit : isDigit 0x49 = true :=
      isDigit_of_mem_decimalString (n := n) (by rw [heq]; decide)
    cases hdigit
  have hvalue : decimalValue (decimalString n) = some (n : ℚ) := by
    simp only [decimalValue, takeWhile_decimalString, dropWhile_decimalString, fractionOf,
      exponentOf, List.append_nil, wholeValue_decimalString]
    rw [if_neg fun hnil => decimalString_ne_nil n hnil.1]
    simp
  rw [unsigned, if_neg hname, hvalue]
  simp only [Bool.false_eq_true, if_false]
  rw [round, if_pos ⟨Rat.den_natCast n, by rw [Rat.num_natCast]; exact h⟩]

/-- A whole number is read back from its digits. -/
theorem toNumber_decimalString {n : Nat} (h : n ≤ 2 ^ 53) :
    toNumber (decimalString n) = .finite n := by
  have hunsigned := unsigned_decimalString h
  rw [toNumber, trimUnits_of_trimmed (trimmed_decimalString n)]
  split
  · next hnil => exact absurd hnil (decimalString_ne_nil n)
  · next u hu => rw [← hu]; exact hunsigned
  · next u v rest hcons =>
    have hu : isDigit u = true := isDigit_of_mem_decimalString (n := n) (by rw [hcons]; simp)
    have hv : isDigit v = true := isDigit_of_mem_decimalString (n := n) (by rw [hcons]; simp)
    rw [if_neg (by rintro ⟨-, rfl | rfl⟩ <;> cases hv),
      if_neg (by rintro ⟨-, rfl | rfl⟩ <;> cases hv),
      if_neg (by rintro ⟨-, rfl | rfl⟩ <;> cases hv), if_neg (by rintro rfl; cases hu),
      if_neg (by rintro rfl; cases hu), ← hcons]
    exact hunsigned

theorem integer_natCast (n : Nat) : integer (.finite n) = some (n : Int) := by
  rw [integer, if_pos (Rat.den_natCast n), Rat.num_natCast]

end JsNumber
end Stim
