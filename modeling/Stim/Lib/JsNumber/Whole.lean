import Mathlib.Data.Nat.Digits.Lemmas
import Stim.Lib.JsNumber
import Stim.Lib.Json

/-!
# The text of whole numbers

`wholeText` is `String(x)` of a whole number `x` of any size: the fewest digits that are read back as
`x`, followed by zeros, or in exponential notation from `1e21` on.  Whatever whole double is
written, the same one is read, and its text is a number of JSON.
-/

namespace Stim.JsNumber

/-- A whole number that is a double. -/
def IsDouble (x : Nat) : Prop := round x = .finite x

instance (x : Nat) : Decidable (IsDouble x) := inferInstanceAs (Decidable (_ = _))

/-- `s` and `places` zeros are read as `x`. -/
def Fits (x places s : Nat) : Prop := round ((s * 10 ^ places : Nat) : ℚ) = .finite x

instance (x places s : Nat) : Decidable (Fits x places s) := inferInstanceAs (Decidable (_ = _))

/-- The most zeros that a numeral of `x` may end in. -/
def zeros (x : Nat) : Nat :=
  Nat.findGreatest (fun places => Fits x places (x / 10 ^ places) ∨
    Fits x places (x / 10 ^ places + 1)) (decimalString x).length

/-- The digits before the zeros: of two numerals that are read as `x` the nearer one, and the even one
of two that are equally near. -/
def significand (x : Nat) : Nat :=
  let places := zeros x
  let low := x / 10 ^ places
  let below := x - low * 10 ^ places
  let above := (low + 1) * 10 ^ places - x
  if Fits x places low ∧
      (¬ Fits x places (low + 1) ∨ below < above ∨ below = above ∧ low % 2 = 0) then low
  else low + 1

/-- `String(x)` -/
def wholeText (x : Nat) : JsString :=
  if x = 0 then [0x30]
  else
    let digits := decimalString (significand x)
    let exponent := digits.length + zeros x
    if exponent ≤ 21 then digits ++ List.replicate (zeros x) 0x30
    else
      let fraction := if digits.tail = [] then [] else 0x2E :: digits.tail
      digits.take 1 ++ fraction ++ [0x65, 0x2B] ++ decimalString (exponent - 1)

/-- `String(z)` -/
def intText (z : Int) : JsString :=
  if z < 0 then 0x2D :: wholeText z.natAbs else wholeText z.natAbs

/-! ## Doubles -/

variable {x : Nat}

theorem isDouble_of_le (h : x ≤ 2 ^ 53) : IsDouble x := by
  rw [IsDouble, round, if_pos ⟨Rat.den_natCast x, by rw [Rat.num_natCast]; exact h⟩]

theorem round_neg {q : ℚ} (hpos : 0 < q) {x : ℚ} (h : round q = .finite x) :
    round (-q) = .finite (-x) := by
  simp only [round, Rat.neg_den, Rat.neg_num, Int.natAbs_neg, abs_neg,
    if_neg (not_lt_of_gt hpos), if_pos (neg_lt_zero.mpr hpos)] at h ⊢
  split_ifs at h ⊢ with hwhole hlarge
  · cases h
    rfl
  · cases h
    rfl

theorem fits_zero (h : IsDouble x) : Fits x 0 x := by
  rw [Fits, pow_zero, Nat.mul_one]
  exact h

theorem fits_zeros (h : IsDouble x) :
    Fits x (zeros x) (x / 10 ^ zeros x) ∨ Fits x (zeros x) (x / 10 ^ zeros x + 1) := by
  have hzero : Fits x 0 (x / 10 ^ 0) ∨ Fits x 0 (x / 10 ^ 0 + 1) := by
    left
    rw [pow_zero, Nat.div_one]
    exact fits_zero h
  exact Nat.findGreatest_spec (P := fun places => Fits x places (x / 10 ^ places) ∨
    Fits x places (x / 10 ^ places + 1)) (Nat.zero_le _) hzero

theorem fits_significand (h : IsDouble x) : Fits x (zeros x) (significand x) := by
  unfold significand
  simp only
  split_ifs with hlow
  · exact hlow.1
  · rcases fits_zeros h with hfits | hfits
    · by_contra hhigh
      exact hlow ⟨hfits, Or.inl hhigh⟩
    · exact hfits

theorem significand_pos (h : IsDouble x) (hx : x ≠ 0) : 0 < significand x := by
  rw [Nat.pos_iff_ne_zero]
  intro hzero
  have hfits := fits_significand h
  rw [hzero, Fits, Nat.zero_mul, isDouble_of_le (by omega)] at hfits
  injection hfits with heq
  exact hx (by exact_mod_cast heq.symm)

/-! ## Digits -/

theorem wholeValue_append (front back : JsString) :
    wholeValue 10 (front ++ back) =
      back.foldl (fun n u => 10 * n + (digitValue u).getD 0) (wholeValue 10 front) := by
  rw [wholeValue, List.foldl_append]
  rfl

theorem wholeValue_zeros (front : JsString) (places : Nat) :
    wholeValue 10 (front ++ List.replicate places 0x30) = wholeValue 10 front * 10 ^ places := by
  induction places with
  | zero => rw [List.replicate_zero, List.append_nil, pow_zero, Nat.mul_one]
  | succ places ih =>
      have hzero : (digitValue 0x30).getD 0 = 0 := by decide
      rw [List.replicate_succ', ← List.append_assoc, wholeValue_append, ih, List.foldl_cons,
        List.foldl_nil, hzero, pow_succ]
      ring

variable {u : UInt16}

theorem isDigit_replicate {places : Nat} (h : u ∈ List.replicate places 0x30) :
    isDigit u = true := by
  rw [List.eq_of_mem_replicate h]
  decide

/-- The first digit of a positive number is not a zero. -/
theorem exists_first_digit {s : Nat} (h : 0 < s) :
    ∃ u rest, decimalString s = u :: rest ∧ isDigit u = true ∧ u ≠ 0x30 ∧
      ∀ v ∈ rest, isDigit v = true := by
  obtain ⟨u, rest, hcons⟩ := List.exists_cons_of_ne_nil (decimalString_ne_nil s)
  refine ⟨u, rest, hcons, isDigit_of_mem_decimalString (n := s) (by rw [hcons]; simp), ?_,
    fun v hv => isDigit_of_mem_decimalString (n := s) (by rw [hcons]; simp [hv])⟩
  rintro rfl
  have hdigits : Nat.digits 10 s ≠ [] := Nat.digits_ne_nil_iff_ne_zero.mpr (by omega)
  have hlast := Nat.getLast_digit_ne_zero 10 (m := s) (by omega)
  have hlt : (Nat.digits 10 s).getLast hdigits < 10 :=
    Nat.digits_lt_base (by omega) (List.getLast_mem hdigits)
  rw [decimalString, if_neg (by omega)] at hcons
  have hhead : ((Nat.digits 10 s).reverse.map fun d => UInt16.ofNat (0x30 + d)).head? =
      some 0x30 := by
    rw [hcons]
    rfl
  rw [List.head?_map, List.head?_reverse, List.getLast?_eq_some_getLast hdigits, Option.map_some,
    Option.some.injEq] at hhead
  have hvalue := congrArg UInt16.toNat hhead
  rw [UInt16.toNat_ofNat'] at hvalue
  have hthirty : (0x30 : UInt16).toNat = 48 := rfl
  omega

theorem takeWhile_digits {digits : JsString} (h : ∀ u ∈ digits, isDigit u = true)
    (hu : isDigit u = false) (rest : JsString) :
    (digits ++ u :: rest).takeWhile isDigit = digits ∧
      (digits ++ u :: rest).dropWhile isDigit = u :: rest := by
  rw [List.takeWhile_append_of_pos h, List.dropWhile_append_of_pos h,
    List.takeWhile_cons_of_neg (by simp [hu]), List.dropWhile_cons_of_neg (by simp [hu]),
    List.append_nil]
  exact ⟨rfl, rfl⟩

/-! ## A text of whole digits -/

theorem decimalValue_digits {text : JsString} (hne : text ≠ [])
    (h : ∀ u ∈ text, isDigit u = true) : decimalValue text = some (wholeValue 10 text : ℚ) := by
  have htake : text.takeWhile isDigit = text := List.takeWhile_eq_self_iff.mpr h
  have hdrop : text.dropWhile isDigit = [] := List.dropWhile_eq_nil_iff.mpr h
  simp only [decimalValue, htake, hdrop, fractionOf, exponentOf, List.append_nil]
  rw [if_neg fun hnil => hne hnil.1]
  simp

/-! ## A text with an exponent -/

/-- A decimal point with the digits behind it, where there are any. -/
def fractionText (rest : JsString) : JsString := if rest = [] then [] else 0x2E :: rest

theorem exponentOf_decimalString (n : Nat) :
    exponentOf (0x65 :: 0x2B :: decimalString n) = some (n : Int) := by
  have hall : (decimalString n).all isDigit = true :=
    List.all_eq_true.mpr fun u hu => isDigit_of_mem_decimalString hu
  have hminus : (0x2B : UInt16) ≠ 0x2D := by decide
  simp only [exponentOf, true_or, if_true, if_neg hminus, wholeValue_decimalString]
  rw [if_pos ⟨decimalString_ne_nil n, hall⟩]

variable {rest : JsString}

theorem fractionOf_fractionText (h : ∀ u ∈ rest, isDigit u = true) (more : JsString) :
    fractionOf (fractionText rest ++ 0x65 :: more) = (rest, 0x65 :: more) := by
  unfold fractionText
  split_ifs with hnil
  · rw [hnil, List.nil_append]
    rfl
  · have hdigits := takeWhile_digits h (u := 0x65) (by decide) more
    rw [List.cons_append, fractionOf, if_pos rfl, hdigits.1, hdigits.2]

/-- The first unit of what follows the leading digit is no digit. -/
theorem exists_fractionText (rest more : JsString) :
    ∃ u text, fractionText rest ++ 0x65 :: more = u :: text ∧ (u = 0x2E ∨ u = 0x65) := by
  unfold fractionText
  split_ifs with hnil
  · exact ⟨0x65, more, rfl, Or.inr rfl⟩
  · exact ⟨0x2E, rest ++ 0x65 :: more, rfl, Or.inl rfl⟩

theorem decimalValue_exponent (hu : isDigit u = true) (h : ∀ v ∈ rest, isDigit v = true) (n : Nat) :
    decimalValue (u :: (fractionText rest ++ 0x65 :: 0x2B :: decimalString n)) =
      some ((wholeValue 10 (u :: rest) : ℚ) * (10 : ℚ) ^ ((n : Int) - rest.length)) := by
  obtain ⟨v, text, htext, hv⟩ := exists_fractionText rest (0x2B :: decimalString n)
  have hfirst : ∀ w ∈ [u], isDigit w = true := by simpa using hu
  have hdigits := takeWhile_digits hfirst (u := v) (by rcases hv with rfl | rfl <;> decide) text
  rw [List.singleton_append, ← htext] at hdigits
  simp only [decimalValue, hdigits.1, hdigits.2, fractionOf_fractionText h,
    exponentOf_decimalString, Option.map_some]
  rw [if_neg fun hnil => List.cons_ne_nil _ _ hnil.1]
  rfl

/-! ## What is written is read back -/

/-- The form of the text of a positive whole number. -/
theorem wholeText_form (h : IsDouble x) (hx : x ≠ 0) :
    ∃ u rest, decimalString (significand x) = u :: rest ∧ isDigit u = true ∧ u ≠ 0x30 ∧
      (∀ v ∈ rest, isDigit v = true) ∧
      (wholeText x = u :: (rest ++ List.replicate (zeros x) 0x30) ∨
        wholeText x = u :: (fractionText rest ++
          0x65 :: 0x2B :: decimalString (rest.length + zeros x))) := by
  obtain ⟨u, rest, hcons, hu, hzero, hrest⟩ := exists_first_digit (significand_pos h hx)
  refine ⟨u, rest, hcons, hu, hzero, hrest, ?_⟩
  have hlength : (u :: rest).length + zeros x - 1 = rest.length + zeros x := by
    rw [List.length_cons]
    omega
  simp only [wholeText, if_neg hx, hcons]
  split_ifs with hshort hnil
  · exact Or.inl rfl
  · right
    rw [List.tail_cons] at hnil
    subst hnil
    simp only [List.length_cons, List.length_nil, fractionText, if_pos]
    simp
  · right
    rw [List.tail_cons] at hnil
    rw [hlength, fractionText, if_neg hnil]
    simp

theorem decimalValue_wholeText (h : IsDouble x) (hx : x ≠ 0) :
    decimalValue (wholeText x) = some ((significand x * 10 ^ zeros x : Nat) : ℚ) := by
  obtain ⟨u, rest, hcons, hu, -, hrest, htext | htext⟩ := wholeText_form h hx
  · have hall : ∀ v ∈ u :: (rest ++ List.replicate (zeros x) 0x30), isDigit v = true := by
      intro v hv
      rcases List.mem_cons.mp hv with rfl | hv
      · exact hu
      · rcases List.mem_append.mp hv with hv | hv
        · exact hrest v hv
        · exact isDigit_replicate hv
    rw [htext, decimalValue_digits (List.cons_ne_nil _ _) hall, ← List.cons_append, ← hcons,
      wholeValue_zeros, wholeValue_decimalString]
  · have hexponent : ((rest.length + zeros x : Nat) : Int) - rest.length = zeros x := by omega
    rw [htext, decimalValue_exponent hu hrest, hexponent, ← hcons, wholeValue_decimalString,
      zpow_natCast]
    push_cast
    rfl

theorem round_value (h : IsDouble x) :
    round ((significand x * 10 ^ zeros x : Nat) : ℚ) = .finite x := fits_significand h

/-- Behind the first digit of a numeral stands nothing that makes it one of another base. -/
theorem second_unit (h : IsDouble x) (hx : x ≠ 0) :
    ∃ u rest, wholeText x = u :: rest ∧ isDigit u = true ∧ u ≠ 0x30 := by
  obtain ⟨u, rest, -, hu, hzero, -, htext | htext⟩ := wholeText_form h hx
  · exact ⟨u, _, htext, hu, hzero⟩
  · exact ⟨u, _, htext, hu, hzero⟩

/-- The units of the text of a whole number. -/
theorem mem_wholeText (h : IsDouble x) (hu : u ∈ wholeText x) :
    isDigit u = true ∨ u = 0x2E ∨ u = 0x65 ∨ u = 0x2B := by
  by_cases hx : x = 0
  · rw [wholeText, if_pos hx, List.mem_singleton] at hu
    subst hu
    left
    decide
  obtain ⟨v, rest, -, hv, -, hrest, htext | htext⟩ := wholeText_form h hx
  · rw [htext, List.mem_cons, List.mem_append] at hu
    rcases hu with rfl | hu | hu
    · exact Or.inl hv
    · exact Or.inl (hrest u hu)
    · exact Or.inl (isDigit_replicate hu)
  · rw [htext, List.mem_cons, List.mem_append, List.mem_cons, List.mem_cons] at hu
    rcases hu with rfl | hu | rfl | rfl | hu
    · exact Or.inl hv
    · unfold fractionText at hu
      split_ifs at hu
      · exact absurd hu List.not_mem_nil
      · rcases List.mem_cons.mp hu with rfl | hu
        · exact Or.inr (Or.inl rfl)
        · exact Or.inl (hrest u hu)
    · exact Or.inr (Or.inr (Or.inl rfl))
    · exact Or.inr (Or.inr (Or.inr rfl))
    · exact Or.inl (isDigit_of_mem_decimalString hu)

theorem isSpaceUnit_of_mem (h : IsDouble x) (hu : u ∈ wholeText x) :
    Whitespace.isSpaceUnit u = false := by
  rcases mem_wholeText h hu with hdigit | rfl | rfl | rfl
  · exact isSpaceUnit_of_isDigit hdigit
  · decide
  · decide
  · decide

theorem toNumber_positive {text : JsString} (htrim : Whitespace.Trimmed text)
    (htext : text = u :: rest) (hu : isDigit u = true) (hzero : u ≠ 0x30) :
    toNumber text = unsigned text false := by
  rw [toNumber, Whitespace.trimUnits_of_trimmed htrim, htext]
  cases rest with
  | nil => rfl
  | cons v rest =>
      have hplus : u ≠ 0x2B := by
        rintro rfl
        cases hu
      have hminus : u ≠ 0x2D := by
        rintro rfl
        cases hu
      simp only
      rw [if_neg fun h => hzero h.1, if_neg fun h => hzero h.1, if_neg fun h => hzero h.1,
        if_neg hplus, if_neg hminus]

theorem unsigned_wholeText (h : IsDouble x) (hx : x ≠ 0) (negative : Bool) :
    unsigned (wholeText x) negative = .finite (if negative then -x else x) := by
  obtain ⟨u, rest, htext, hu, -⟩ := second_unit h hx
  have hname : wholeText x ≠ JsString.ofString "Infinity" := by
    rw [htext]
    intro heq
    have hletter : u = 0x49 := by
      injection heq
    rw [hletter] at hu
    cases hu
  have hpos : (0 : ℚ) < ((significand x * 10 ^ zeros x : Nat) : ℚ) := by
    exact_mod_cast Nat.mul_pos (significand_pos h hx) (Nat.pow_pos (by omega))
  rw [unsigned, if_neg hname, decimalValue_wholeText h hx]
  cases negative with
  | false => exact round_value h
  | true => exact round_neg hpos (round_value h)

theorem trimmed_wholeText (h : IsDouble x) : Whitespace.Trimmed (wholeText x) :=
  ⟨fun _ hu => isSpaceUnit_of_mem h (List.mem_of_head? hu),
    fun _ hu => isSpaceUnit_of_mem h (List.mem_of_getLast? hu)⟩

/-- A whole double is read back from its text. -/
theorem toNumber_wholeText (h : IsDouble x) : toNumber (wholeText x) = .finite x := by
  by_cases hx : x = 0
  · have hzero : wholeText x = decimalString x := by rw [wholeText, if_pos hx, hx]; rfl
    rw [hzero]
    exact toNumber_decimalString (by omega)
  · obtain ⟨u, rest, htext, hu, hzero⟩ := second_unit h hx
    rw [toNumber_positive (trimmed_wholeText h) htext hu hzero, unsigned_wholeText h hx]
    rfl

theorem toNumber_intText {z : Int} (h : IsDouble z.natAbs) : toNumber (intText z) = .finite z := by
  unfold intText
  split_ifs with hneg
  · have hx : z.natAbs ≠ 0 := by omega
    obtain ⟨u, rest, htext, hu, -⟩ := second_unit h hx
    have htrim : Whitespace.Trimmed (0x2D :: wholeText z.natAbs) := by
      constructor
      · intro v hv
        cases hv
        decide
      · intro v hv
        rw [List.getLast?_cons_of_ne_nil (by rw [htext]; exact List.cons_ne_nil _ _)] at hv
        exact (trimmed_wholeText h).2 v hv
    have hunsigned := unsigned_wholeText h hx true
    have hvalue : ((z.natAbs : Nat) : ℚ) = -(z : ℚ) := by
      rw [Nat.cast_natAbs, abs_of_neg hneg, Int.cast_neg]
    rw [if_pos rfl, hvalue, neg_neg] at hunsigned
    rw [toNumber, Whitespace.trimUnits_of_trimmed htrim, htext]
    rw [htext] at hunsigned
    have hdigit : (0x2D : UInt16) ≠ 0x30 := by decide
    have hplus : (0x2D : UInt16) ≠ 0x2B := by decide
    simp only [if_true, hdigit, hplus, false_and, if_false]
    exact hunsigned
  · have hvalue : ((z.natAbs : Nat) : ℚ) = (z : ℚ) := by
      rw [Nat.cast_natAbs, abs_of_nonneg (not_lt.mp hneg)]
    rw [toNumber_wholeText h, hvalue]

/-! ## Numbers of JSON -/

theorem isExponent_decimalString (n : Nat) :
    Json.isExponent (0x65 :: 0x2B :: decimalString n) = true := by
  have hdigits : Json.isDigits (decimalString n) = true := by
    rw [Json.isDigits, Bool.and_eq_true, Bool.not_eq_true', List.isEmpty_eq_false_iff]
    exact ⟨decimalString_ne_nil n,
      List.all_eq_true.mpr fun u hu => isDigit_of_mem_decimalString hu⟩
  simp [Json.isExponent, hdigits]

theorem isFraction_fractionText (h : ∀ u ∈ rest, isDigit u = true) (n : Nat) :
    Json.isFraction (fractionText rest ++ 0x65 :: 0x2B :: decimalString n) = true := by
  unfold fractionText
  split_ifs with hnil
  · rw [List.nil_append, Json.isFraction, if_neg (by decide)]
    exact isExponent_decimalString n
  · have hdigits := takeWhile_digits h (u := 0x65) (by decide) (0x2B :: decimalString n)
    have hall : Json.isDigits rest = true := by
      rw [Json.isDigits, Bool.and_eq_true, Bool.not_eq_true', List.isEmpty_eq_false_iff]
      exact ⟨hnil, List.all_eq_true.mpr h⟩
    rw [List.cons_append, Json.isFraction, if_pos rfl, Bool.and_eq_true]
    exact ⟨by rw [← hdigits.1] at hall; exact hall,
      by
        have hexponent := isExponent_decimalString n
        rw [← hdigits.2] at hexponent
        exact hexponent⟩

theorem isUnsigned_wholeText (h : IsDouble x) : Json.isUnsigned (wholeText x) = true := by
  by_cases hx : x = 0
  · subst hx
    decide
  obtain ⟨u, rest, -, hu, hzero, hrest, htext | htext⟩ := wholeText_form h hx
  · have hall : ∀ v ∈ rest ++ List.replicate (zeros x) 0x30, Json.isDigit v = true := by
      intro v hv
      rcases List.mem_append.mp hv with hv | hv
      · exact hrest v hv
      · exact isDigit_replicate hv
    rw [htext, Json.isUnsigned, if_neg hzero, List.dropWhile_eq_nil_iff.mpr hall,
      Bool.and_eq_true]
    exact ⟨hu, rfl⟩
  · obtain ⟨v, text, hfraction, hv⟩ := exists_fractionText rest
      (0x2B :: decimalString (rest.length + zeros x))
    have hdrop : (v :: text).dropWhile Json.isDigit = v :: text :=
      List.dropWhile_cons_of_neg (by rcases hv with rfl | rfl <;> decide)
    rw [htext, Json.isUnsigned, if_neg hzero, hfraction, hdrop, ← hfraction, Bool.and_eq_true]
    exact ⟨hu, isFraction_fractionText hrest _⟩

theorem isNumber_wholeText (h : IsDouble x) : Json.isNumber (wholeText x) = true := by
  have hunsigned := isUnsigned_wholeText h
  by_cases hx : x = 0
  · subst hx
    decide
  obtain ⟨u, rest, htext, hu, -⟩ := second_unit h hx
  have hminus : u ≠ 0x2D := by
    rintro rfl
    cases hu
  rw [htext] at hunsigned ⊢
  rw [Json.isNumber, if_neg hminus]
  exact hunsigned

theorem isNumber_intText {z : Int} (h : IsDouble z.natAbs) : Json.isNumber (intText z) = true := by
  unfold intText
  split_ifs with hneg
  · rw [Json.isNumber, if_pos rfl]
    exact isUnsigned_wholeText h
  · exact isNumber_wholeText h

example : wholeText (2 ^ 60) = JsString.ofString "1152921504606847000" := by decide +kernel

end Stim.JsNumber
