import Stim.Lib.JsNumber

/-!
# Dates in ISO 8601 form

`toISOString` is the text of a time, in milliseconds from the epoch, and `isoTime` is what
`Date.parse` reads in a text of that form: a date, a time of day with milliseconds, and `Z`.  Years
before 0 and behind 9999 have a sign and six digits.
-/

namespace Stim.IsoDate

open JsNumber (isDigit wholeValue)

/-! ## Years and months -/

/-- The day on which a year begins, counted from the first day of 1970. -/
def dayFromYear (year : Int) : Int :=
  365 * (year - 1970) + (year - 1969) / 4 - (year - 1901) / 100 + (year - 1601) / 400

def isLeap (year : Int) : Bool := year % 4 = 0 ∧ (year % 100 ≠ 0 ∨ year % 400 = 0)

/-- The years from 1970 to the year of a day. -/
def yearsToDay (day : Nat) : Nat :=
  Nat.findGreatest (fun years => dayFromYear (1970 + years) ≤ day) (day / 365)

/-- The year that a day belongs to; the calendar repeats after 146097 days. -/
def yearFromDay (day : Int) : Int :=
  1970 + 400 * (day / 146097) + yearsToDay (day % 146097).toNat

def monthLengths (leap : Bool) : List Nat :=
  [31, if leap then 29 else 28, 31, 30, 31, 30, 31, 31, 30, 31, 30, 31]

/-- The month that a day of a year belongs to, and the day of that month, both from zero. -/
def splitMonth : List Nat → Nat → Nat × Nat
  | [], day => (0, day)
  | length :: rest, day =>
      if day < length then (0, day)
      else ((splitMonth rest (day - length)).1 + 1, (splitMonth rest (day - length)).2)

/-! ## Text -/

/-- A number with leading zeros. -/
def pad : Nat → Nat → JsString
  | 0, _ => []
  | width + 1, n => pad width (n / 10) ++ [UInt16.ofNat (0x30 + n % 10)]

def readNumber (width : Nat) (text : JsString) : Option (Nat × JsString) :=
  if width ≤ text.length ∧ (text.take width).all isDigit then
    some (wholeValue 10 (text.take width), text.drop width)
  else none

def readUnit (u : UInt16) : JsString → Option JsString
  | [] => none
  | v :: rest => if v = u then some rest else none

def yearText (year : Int) : JsString :=
  if year < 0 then 0x2D :: pad 6 year.natAbs
  else if year ≤ 9999 then pad 4 year.toNat
  else 0x2B :: pad 6 year.toNat

def readYear : JsString → Option (Int × JsString)
  | [] => none
  | u :: rest =>
      if u = 0x2D then (readNumber 6 rest).map fun (year, rest) => (-year, rest)
      else if u = 0x2B then (readNumber 6 rest).map fun (year, rest) => (year, rest)
      else (readNumber 4 (u :: rest)).map fun (year, rest) => (year, rest)

/-- `new Date(t).toISOString()` -/
def toISOString (t : Int) : JsString :=
  let day := t / 86400000
  let year := yearFromDay day
  let (month, date) := splitMonth (monthLengths (isLeap year)) (day - dayFromYear year).toNat
  yearText year ++ 0x2D :: (pad 2 (month + 1) ++ 0x2D :: (pad 2 (date + 1) ++ 0x54 ::
    (pad 2 (t / 3600000 % 24).toNat ++ 0x3A :: (pad 2 (t / 60000 % 60).toNat ++ 0x3A ::
      (pad 2 (t / 1000 % 60).toNat ++ 0x2E :: (pad 3 (t % 1000).toNat ++ [0x5A]))))))

/-- The time of a text of the form of `toISOString`. -/
def isoTime (text : JsString) : Option Int := do
  let (year, text) ← readYear text
  let text ← readUnit 0x2D text
  let (month, text) ← readNumber 2 text
  let text ← readUnit 0x2D text
  let (date, text) ← readNumber 2 text
  let text ← readUnit 0x54 text
  let (hour, text) ← readNumber 2 text
  let text ← readUnit 0x3A text
  let (minute, text) ← readNumber 2 text
  let text ← readUnit 0x3A text
  let (second, text) ← readNumber 2 text
  let text ← readUnit 0x2E text
  let (ms, text) ← readNumber 3 text
  let text ← readUnit 0x5A text
  let lengths := monthLengths (isLeap year)
  if text = [] ∧ 1 ≤ month ∧ month ≤ 12 ∧ 1 ≤ date ∧ date ≤ lengths.getD (month - 1) 0 ∧
      hour < 24 ∧ minute < 60 ∧ second < 60 then
    some ((dayFromYear year + (lengths.take (month - 1)).sum + (date - 1 : Nat)) * 86400000 +
      hour * 3600000 + minute * 60000 + second * 1000 + ms)
  else none

/-- `Date.parse`; what it makes of texts of other forms is a parameter. -/
def dateParse (otherForms : JsString → Option Int) (text : JsString) : Option Int :=
  (isoTime text).or (otherForms text)

/-! ## Years -/

theorem dayFromYear_succ (year : Int) :
    dayFromYear (year + 1) = dayFromYear year + if isLeap year then 366 else 365 := by
  unfold dayFromYear isLeap
  simp only [decide_eq_true_eq]
  split_ifs with hleap
  · omega
  · omega

theorem mul_le_dayFromYear (years : Nat) : (365 * years : Nat) ≤ dayFromYear (1970 + years) := by
  unfold dayFromYear
  omega

theorem dayFromYear_cycle (year cycles : Int) :
    dayFromYear (year + 400 * cycles) = dayFromYear year + 146097 * cycles := by
  unfold dayFromYear
  omega

theorem yearsToDay_spec (day : Nat) :
    dayFromYear (1970 + yearsToDay day) ≤ day ∧
      day < dayFromYear (1970 + yearsToDay day + 1) := by
  have hspec := Nat.findGreatest_spec (P := fun years : Nat => dayFromYear (1970 + years) ≤ day)
    (n := day / 365) (Nat.zero_le _) (by unfold dayFromYear; omega)
  refine ⟨hspec, ?_⟩
  by_contra hlate
  -- a later year within the bound would have been found
  have hnext : dayFromYear (1970 + (yearsToDay day + 1 : Nat)) ≤ day := by
    rw [Nat.cast_add, Nat.cast_one, ← add_assoc]
    omega
  have hbound := mul_le_dayFromYear (yearsToDay day + 1)
  have hlt : Nat.findGreatest (fun years : Nat => dayFromYear (1970 + years) ≤ day) (day / 365) <
      yearsToDay day + 1 := Nat.lt_succ_self _
  exact Nat.findGreatest_is_greatest (P := fun years : Nat => dayFromYear (1970 + years) ≤ day)
    (n := day / 365) (k := yearsToDay day + 1) hlt (by omega) hnext

theorem yearFromDay_spec (day : Int) :
    dayFromYear (yearFromDay day) ≤ day ∧ day < dayFromYear (yearFromDay day + 1) := by
  obtain ⟨hfrom, hto⟩ := yearsToDay_spec (day % 146097).toNat
  have hyear : yearFromDay day =
      1970 + yearsToDay (day % 146097).toNat + 400 * (day / 146097) := by
    unfold yearFromDay
    omega
  have hnext : yearFromDay day + 1 =
      1970 + yearsToDay (day % 146097).toNat + 1 + 400 * (day / 146097) := by
    unfold yearFromDay
    omega
  rw [hnext, hyear, dayFromYear_cycle, dayFromYear_cycle]
  omega

theorem yearFromDay_bounds {day : Int} (h : day.natAbs ≤ 100000000) :
    (yearFromDay day).natAbs < 1000000 := by
  obtain ⟨hfrom, hto⟩ := yearFromDay_spec day
  unfold dayFromYear at hfrom hto
  omega

/-! ## Months -/

theorem splitMonth_spec (lengths : List Nat) (day : Nat) (h : day < lengths.sum) :
    (splitMonth lengths day).1 < lengths.length ∧
      (splitMonth lengths day).2 < lengths.getD (splitMonth lengths day).1 0 ∧
      (lengths.take (splitMonth lengths day).1).sum + (splitMonth lengths day).2 = day := by
  induction lengths generalizing day with
  | nil => exact absurd h (Nat.not_lt_zero _)
  | cons length rest ih =>
      rw [List.sum_cons] at h
      rw [splitMonth]
      split_ifs with hday
      · exact ⟨by simp, by simpa using hday, by simp⟩
      · obtain ⟨hmonth, hdate, hsum⟩ := ih (day - length) (by omega)
        refine ⟨by simpa using hmonth, by simpa using hdate, ?_⟩
        rw [List.take_succ_cons, List.sum_cons]
        omega

theorem sum_monthLengths (leap : Bool) : (monthLengths leap).sum = if leap then 366 else 365 := by
  cases leap <;> rfl

theorem getD_monthLengths_le (leap : Bool) (month : Nat) :
    (monthLengths leap).getD month 0 ≤ 31 := by
  rcases Nat.lt_or_ge month 12 with hmonth | hmonth
  · have hall : ∀ leap : Bool, ∀ month : Fin 12, (monthLengths leap).getD month 0 ≤ 31 := by decide
    exact hall leap ⟨month, hmonth⟩
  · have hlength : (monthLengths leap).length ≤ month := by simpa [monthLengths] using hmonth
    rw [List.getD_eq_getElem?_getD, List.getElem?_eq_none hlength]
    exact Nat.zero_le _

/-! ## Numbers -/

@[simp] theorem length_pad (width n : Nat) : (pad width n).length = width := by
  induction width generalizing n with
  | zero => rfl
  | succ width ih => rw [pad, List.length_append, ih, List.length_singleton]

variable {width n : Nat}

theorem isDigit_of_mem_pad {u : UInt16} (h : u ∈ pad width n) : isDigit u = true := by
  induction width generalizing n with
  | zero => exact absurd h List.not_mem_nil
  | succ width ih =>
      rw [pad, List.mem_append, List.mem_singleton] at h
      rcases h with h | rfl
      · exact ih h
      · exact JsNumber.isDigit_ofNat (Nat.mod_lt n (by omega))

theorem wholeValue_pad (h : n < 10 ^ width) : wholeValue 10 (pad width n) = n := by
  induction width generalizing n with
  | zero =>
      rw [pow_zero, Nat.lt_one_iff] at h
      rw [h]
      rfl
  | succ width ih =>
      rw [pow_succ] at h
      have hfront := ih (n := n / 10) (by omega)
      rw [wholeValue] at hfront ⊢
      rw [pad, List.foldl_append, hfront, List.foldl_cons, List.foldl_nil,
        JsNumber.digitValue_ofNat (Nat.mod_lt n (by omega)), Option.getD_some]
      omega

theorem readNumber_pad (h : n < 10 ^ width) (rest : JsString) :
    readNumber width (pad width n ++ rest) = some (n, rest) := by
  have htake : (pad width n ++ rest).take width = pad width n := by
    rw [List.take_append_of_le_length (by simp), List.take_of_length_le (by simp)]
  have hdrop : (pad width n ++ rest).drop width = rest := by
    rw [List.drop_append_of_le_length (by simp), List.drop_eq_nil_of_le (by simp),
      List.nil_append]
  have hall : (pad width n).all isDigit = true :=
    List.all_eq_true.mpr fun u hu => isDigit_of_mem_pad hu
  rw [readNumber, htake, hdrop, wholeValue_pad h, if_pos ⟨by simp, hall⟩]

theorem exists_pad_cons (h : 0 < width) :
    ∃ u rest, pad width n = u :: rest ∧ u ≠ 0x2D ∧ u ≠ 0x2B := by
  obtain ⟨u, rest, hcons⟩ := List.exists_cons_of_ne_nil
    (List.ne_nil_of_length_pos (by simpa using h : 0 < (pad width n).length))
  have hdigit : isDigit u = true := isDigit_of_mem_pad (n := n) (by rw [hcons]; simp)
  refine ⟨u, rest, hcons, ?_, ?_⟩
  · rintro rfl
    cases hdigit
  · rintro rfl
    cases hdigit

theorem readYear_yearText {year : Int} (h : year.natAbs < 1000000) (rest : JsString) :
    readYear (yearText year ++ rest) = some (year, rest) := by
  unfold yearText
  split_ifs with hneg hshort
  · rw [List.cons_append, readYear, if_pos rfl, readNumber_pad (by omega), Option.map_some]
    simp only [Option.some.injEq, Prod.mk.injEq, and_true]
    omega
  · obtain ⟨u, more, hcons, hminus, hplus⟩ := exists_pad_cons (n := year.toNat) (by omega : 0 < 4)
    have hread : readNumber 4 (pad 4 year.toNat ++ rest) = some (year.toNat, rest) :=
      readNumber_pad (by omega) rest
    rw [hcons] at hread ⊢
    rw [List.cons_append] at hread ⊢
    rw [readYear, if_neg hminus, if_neg hplus, hread, Option.map_some]
    simp only [Option.some.injEq, Prod.mk.injEq, and_true]
    omega
  · rw [List.cons_append, readYear, if_neg (by decide), if_pos rfl, readNumber_pad (by omega),
      Option.map_some]
    simp only [Option.some.injEq, Prod.mk.injEq, and_true]
    omega

theorem readUnit_cons (u : UInt16) (rest : JsString) : readUnit u (u :: rest) = some rest := by
  rw [readUnit, if_pos rfl]

/-! ## What is written is read back -/

/-- The year, month and date of a day are those of that day. -/
theorem splitMonth_day {day year : Int} (hyear : year = yearFromDay day) {month date : Nat}
    (hsplit : splitMonth (monthLengths (isLeap year)) (day - dayFromYear year).toNat =
      (month, date)) :
    month < 12 ∧ date < (monthLengths (isLeap year)).getD month 0 ∧
      dayFromYear year + ((monthLengths (isLeap year)).take month).sum + date = day := by
  obtain ⟨hfrom, hto⟩ := yearFromDay_spec day
  rw [← hyear] at hfrom hto
  rw [dayFromYear_succ] at hto
  have hlt : (day - dayFromYear year).toNat < (monthLengths (isLeap year)).sum := by
    rw [sum_monthLengths]
    split_ifs at hto ⊢
    · omega
    · omega
  obtain ⟨hmonth, hdate, hsum⟩ := splitMonth_spec _ _ hlt
  rw [hsplit] at hmonth hdate hsum
  exact ⟨hmonth, hdate, by simp only at hsum; omega⟩

/-- The first and last times that a `Date` can have are this far from the epoch. -/
abbrev MAX_TIME : Nat := 8640000000000000

/-- A time is read back from its text. -/
theorem isoTime_toISOString {t : Int} (h : t.natAbs ≤ MAX_TIME) :
    isoTime (toISOString t) = some t := by
  have hbounds : (yearFromDay (t / 86400000)).natAbs < 1000000 :=
    yearFromDay_bounds (by unfold MAX_TIME at h; omega)
  generalize hyear : yearFromDay (t / 86400000) = year at hbounds
  obtain ⟨month, date, hsplit⟩ : ∃ month date, splitMonth (monthLengths (isLeap year))
      (t / 86400000 - dayFromYear year).toNat = (month, date) := ⟨_, _, rfl⟩
  obtain ⟨hmonth, hdate, hday⟩ := splitMonth_day hyear.symm hsplit
  have hdays := getD_monthLengths_le (isLeap year) month
  have hbind {α β : Type} (a : α) (f : α → Option β) : (some a >>= f) = f a := rfl
  rw [toISOString]
  simp only [hyear, hsplit]
  rw [isoTime, readYear_yearText hbounds]
  simp only [hbind, readUnit_cons]
  rw [readNumber_pad (by omega)]
  simp only [hbind, readUnit_cons]
  rw [readNumber_pad (by omega)]
  simp only [hbind, readUnit_cons]
  rw [readNumber_pad (by omega)]
  simp only [hbind, readUnit_cons]
  rw [readNumber_pad (by omega)]
  simp only [hbind, readUnit_cons]
  rw [readNumber_pad (by omega)]
  simp only [hbind, readUnit_cons]
  rw [readNumber_pad (by omega)]
  simp only [hbind, readUnit_cons, Nat.add_sub_cancel]
  rw [if_pos ⟨trivial, by omega, by omega, by omega, by omega, by omega, by omega, by omega⟩,
    hday]
  congr 1
  omega

theorem dateParse_toISOString (otherForms : JsString → Option Int) {t : Int} (h : t.natAbs ≤ MAX_TIME) :
    dateParse otherForms (toISOString t) = some t := by
  rw [dateParse, isoTime_toISOString h]
  rfl

theorem toISOString_ne_nil (t : Int) : toISOString t ≠ [] := by
  simp [toISOString]

example : toISOString 1782036000000 = JsString.ofString "2026-06-21T10:00:00.000Z" := by
  decide +kernel

end Stim.IsoDate
