import Mathlib.Data.List.Basic
import Mathlib.Tactic.IntervalCases

/-!
# Hexadecimal text

Bytes written as two lowercase digits each, and digits read back the way `Buffer.from(text, 'hex')`
reads them: either case, up to the first pair that is not two digits.
-/

namespace Stim.Hex

def alphabet : List Char :=
  ['0', '1', '2', '3', '4', '5', '6', '7', '8', '9', 'a', 'b', 'c', 'd', 'e', 'f']

def digit (n : Nat) : Char := alphabet.getD (n % 16) '0'

def value (c : Char) : Option Nat :=
  if '0' ≤ c ∧ c ≤ '9' then some (c.toNat - 48)
  else if 'a' ≤ c ∧ c ≤ 'f' then some (c.toNat - 87)
  else if 'A' ≤ c ∧ c ≤ 'F' then some (c.toNat - 55)
  else none

def encode : List UInt8 → List Char
  | [] => []
  | byte :: rest => digit (byte.toNat / 16) :: digit byte.toNat :: encode rest

def decode : List Char → List UInt8
  | high :: low :: rest =>
      match value high, value low with
      | some h, some l => UInt8.ofNat (16 * h + l) :: decode rest
      | _, _ => []
  | _ => []

/-- A lowercase digit has a value that is written as that digit. -/
theorem value_of_mem {c : Char} (hc : c ∈ alphabet) :
    ∃ n, value c = some n ∧ n < 16 ∧ digit n = c := by
  simp only [alphabet, List.mem_cons, List.not_mem_nil, or_false] at hc
  rcases hc with rfl | rfl | rfl | rfl | rfl | rfl | rfl | rfl | rfl | rfl | rfl | rfl | rfl |
    rfl | rfl | rfl
  all_goals exact ⟨_, rfl, by decide, rfl⟩

theorem digit_mod (n : Nat) : digit (n % 16) = digit n := by
  simp [digit]

/-- Two digits read as one byte are written as these digits. -/
theorem encode_decode_pair {high low : Nat} (hHigh : high < 16) (hLow : low < 16) :
    digit ((UInt8.ofNat (16 * high + low)).toNat / 16) = digit high ∧
      digit (UInt8.ofNat (16 * high + low)).toNat = digit low := by
  have hByte : (UInt8.ofNat (16 * high + low)).toNat = 16 * high + low := by
    rw [UInt8.toNat_ofNat']
    omega
  rw [hByte]
  refine ⟨congrArg digit (by omega), ?_⟩
  rw [← digit_mod (16 * high + low), ← digit_mod low]
  exact congrArg digit (by omega)

theorem digit_injective {a b : Nat} (h : digit a = digit b) : a % 16 = b % 16 := by
  have hDigits : ∀ x y : Fin 16, digit x = digit y → x = y := by decide
  have hFin := hDigits ⟨a % 16, Nat.mod_lt a (by decide)⟩ ⟨b % 16, Nat.mod_lt b (by decide)⟩
    (by rw [digit_mod, digit_mod, h])
  exact congrArg Fin.val hFin

theorem encode_injective : Function.Injective encode := by
  intro a
  induction a with
  | nil =>
      intro b h
      cases b with
      | nil => rfl
      | cons _ _ => cases h
  | cons x a ih =>
      intro b h
      cases b with
      | nil => cases h
      | cons y b =>
          simp only [encode, List.cons.injEq] at h
          obtain ⟨hHigh, hLow, hRest⟩ := h
          have hUpper := digit_injective hHigh
          have hLower := digit_injective hLow
          have hx := x.toNat_lt
          have hy := y.toNat_lt
          rw [ih hRest, UInt8.toNat_inj.mp (by omega : x.toNat = y.toNat)]

/-- Lowercase digits in pairs survive being read and written. -/
theorem encode_decode : ∀ (bytes : Nat) {text : List Char}, text.length = 2 * bytes →
    (∀ c ∈ text, c ∈ alphabet) →
      encode (decode text) = text ∧ (decode text).length = bytes := by
  intro bytes
  induction bytes with
  | zero =>
      intro text hLength _
      rw [List.length_eq_zero_iff.mp (by omega : text.length = 0)]
      exact ⟨rfl, rfl⟩
  | succ bytes ih =>
      intro text hLength hText
      match text, hLength, hText with
      | high :: low :: rest, hLength, hText =>
          obtain ⟨h, hHigh, hh, hHighDigit⟩ := value_of_mem (hText high (by simp))
          obtain ⟨l, hLow, hl, hLowDigit⟩ := value_of_mem (hText low (by simp))
          have hShort : rest.length = 2 * bytes := by
            simp at hLength
            omega
          obtain ⟨hRest, hCount⟩ := ih hShort fun c hc => hText c (by simp [hc])
          obtain ⟨hFirst, hSecond⟩ := encode_decode_pair hh hl
          simp only [decode, hHigh, hLow, encode, hFirst, hSecond, hHighDigit, hLowDigit, hRest,
            List.length_cons, hCount, and_self]

end Stim.Hex
