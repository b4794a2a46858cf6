import Stim.Lib.Hex

/-!
# JavaScript strings

A string is a list of UTF-16 code units, by which `<` compares.  `quote` is what `JSON.stringify`
makes of a string: the text between its quotation marks, in which a surrogate without its partner
stands escaped.  `readQuoted` reads that text back, so a quoted string ends where it ends whatever
follows it.
-/

namespace Stim

abbrev JsString := List UInt16

namespace JsString

/-- The code units as numbers, which compare as the strings do. -/
def units (s : JsString) : List Nat := s.map UInt16.toNat

theorem units_injective : Function.Injective units :=
  List.map_injective_iff.mpr fun _ _ h => UInt16.toNat_inj.mp h

def isHigh (unit : UInt16) : Bool := 0xD800 ≤ unit.toNat && unit.toNat < 0xDC00

def isLow (unit : UInt16) : Bool := 0xDC00 ≤ unit.toNat && unit.toNat < 0xE000

/-- The code units of a character. -/
def encode (c : Char) : JsString :=
  if c.toNat < 0x10000 then [UInt16.ofNat c.toNat]
  else [UInt16.ofNat (0xD800 + (c.toNat - 0x10000) / 0x400),
    UInt16.ofNat (0xDC00 + (c.toNat - 0x10000) % 0x400)]

def ofString (text : String) : JsString := text.toList.flatMap encode

/-- The character of a surrogate pair. -/
def pair (high low : UInt16) : Char :=
  Char.ofNat (0x10000 + (high.toNat - 0xD800) * 0x400 + (low.toNat - 0xDC00))

/-- `\u` and four digits -/
def escape (unit : UInt16) : List Char :=
  ['\\', 'u', Hex.digit (unit.toNat / 4096), Hex.digit (unit.toNat / 256),
    Hex.digit (unit.toNat / 16), Hex.digit unit.toNat]

/-- A code unit that is not half of a pair. -/
def quoteUnit (unit : UInt16) : List Char :=
  if unit.toNat = 8 then ['\\', 'b']
  else if unit.toNat = 9 then ['\\', 't']
  else if unit.toNat = 10 then ['\\', 'n']
  else if unit.toNat = 12 then ['\\', 'f']
  else if unit.toNat = 13 then ['\\', 'r']
  else if unit.toNat = 34 then ['\\', '"']
  else if unit.toNat = 92 then ['\\', '\\']
  else if unit.toNat < 0x20 ∨ isHigh unit ∨ isLow unit then escape unit
  else [Char.ofNat unit.toNat]

def quoteUnits : JsString → List Char
  | high :: low :: rest =>
      if isHigh high && isLow low then pair high low :: quoteUnits rest
      else quoteUnit high ++ quoteUnits (low :: rest)
  | [unit] => quoteUnit unit
  | [] => []

/-- `JSON.stringify` of a string -/
def quote (s : JsString) : List Char := '"' :: quoteUnits s ++ ['"']

/-! ## Reading a quoted string back -/

def unescape (c : Char) : Option UInt16 :=
  if c = 'b' then some 8
  else if c = 't' then some 9
  else if c = 'n' then some 10
  else if c = 'f' then some 12
  else if c = 'r' then some 13
  else if c = '"' then some 34
  else if c = '\\' then some 92
  else none

def hexUnit (a b c d : Char) : Option UInt16 :=
  match Hex.value a, Hex.value b, Hex.value c, Hex.value d with
  | some a, some b, some c, some d => some (UInt16.ofNat (a * 4096 + b * 256 + c * 16 + d))
  | _, _, _, _ => none

/-- The string up to the closing quotation mark, and what follows it. -/
def readQuoted : List Char → Option (JsString × List Char)
  | '"' :: rest => some ([], rest)
  | '\\' :: 'u' :: a :: b :: c :: d :: rest =>
      match hexUnit a b c d, readQuoted rest with
      | some unit, some (s, left) => some (unit :: s, left)
      | _, _ => none
  | '\\' :: c :: rest =>
      match unescape c, readQuoted rest with
      | some unit, some (s, left) => some (unit :: s, left)
      | _, _ => none
  | c :: rest => (readQuoted rest).map fun (s, left) => (encode c ++ s, left)
  | [] => none

theorem hexUnit_escape (unit : UInt16) :
    hexUnit (Hex.digit (unit.toNat / 4096)) (Hex.digit (unit.toNat / 256))
      (Hex.digit (unit.toNat / 16)) (Hex.digit unit.toNat) = some unit := by
  have hvalue : ∀ n, Hex.value (Hex.digit n) = some (n % 16) := by
    intro n
    have hsmall : ∀ k : Fin 16, Hex.value (Hex.digit k) = some k.val := by decide
    rw [← Hex.digit_mod]
    exact hsmall ⟨n % 16, Nat.mod_lt n (by decide)⟩
  have hunit := unit.toNat_lt
  have hsum : unit.toNat / 4096 % 16 * 4096 + unit.toNat / 256 % 16 * 256 +
      unit.toNat / 16 % 16 * 16 + unit.toNat % 16 = unit.toNat := by
    omega
  simp only [hexUnit, hvalue, hsum, UInt16.ofNat_toNat]

theorem readQuoted_char {c : Char} (hquote : c ≠ '"') (hslash : c ≠ '\\') (rest : List Char) :
    readQuoted (c :: rest) = (readQuoted rest).map fun (s, left) => (encode c ++ s, left) := by
  rw [readQuoted]
  · exact hquote
  · exact fun _ _ _ _ _ h => absurd h hslash
  · exact fun _ _ h => absurd h hslash

theorem toNat_ofNat {n : Nat} (h : n.isValidChar) : (Char.ofNat n).toNat = n := by
  rw [Char.ofNat, dif_pos h]
  rfl

theorem readQuoted_unescape {c : Char} {unit : UInt16} (hc : unescape c = some unit)
    (rest : List Char) :
    readQuoted ('\\' :: c :: rest) = (readQuoted rest).map fun (s, left) => (unit :: s, left) := by
  have hu : c ≠ 'u' := by
    rintro rfl
    have hnone : unescape 'u' = none := by decide
    rw [hnone] at hc
    cases hc
  rw [readQuoted, hc]
  · cases readQuoted rest <;> rfl
  · exact fun _ _ _ _ _ h => absurd h hu

theorem readQuoted_escape (unit : UInt16) (rest : List Char) :
    readQuoted (escape unit ++ rest) =
      (readQuoted rest).map fun (s, left) => (unit :: s, left) := by
  show readQuoted ('\\' :: 'u' :: _ :: _ :: _ :: _ :: rest) = _
  rw [readQuoted, hexUnit_escape]
  cases readQuoted rest <;> rfl

theorem readQuoted_quoteUnit (unit : UInt16) (rest : List Char) :
    readQuoted (quoteUnit unit ++ rest) =
      (readQuoted rest).map fun (s, left) => (unit :: s, left) := by
  have hunit : ∀ {n : Nat}, unit.toNat = n → unit = UInt16.ofNat n := by
    rintro n rfl
    exact (UInt16.ofNat_toNat).symm
  unfold quoteUnit
  split_ifs with hb ht hn hf hr hquote hslash hescape
  · exact readQuoted_unescape (by rw [hunit hb]; decide) rest
  · exact readQuoted_unescape (by rw [hunit ht]; decide) rest
  · exact readQuoted_unescape (by rw [hunit hn]; decide) rest
  · exact readQuoted_unescape (by rw [hunit hf]; decide) rest
  · exact readQuoted_unescape (by rw [hunit hr]; decide) rest
  · exact readQuoted_unescape (by rw [hunit hquote]; decide) rest
  · exact readQuoted_unescape (by rw [hunit hslash]; decide) rest
  · exact readQuoted_escape unit rest
  · -- the unit is a character, and stands for itself
    have hlt := unit.toNat_lt
    have hvalid : unit.toNat.isValidChar := by
      simp only [isHigh, isLow, Bool.and_eq_true, decide_eq_true_eq] at hescape
      unfold Nat.isValidChar
      omega
    have hchar : (Char.ofNat unit.toNat).toNat = unit.toNat := toNat_ofNat hvalid
    have hne : ∀ c : Char, unit.toNat ≠ c.toNat → Char.ofNat unit.toNat ≠ c := by
      rintro c h rfl
      exact h hchar.symm
    rw [List.singleton_append, readQuoted_char (hne _ hquote) (hne _ hslash), encode, hchar,
      if_pos (by omega), UInt16.ofNat_toNat]
    rfl

theorem readQuoted_pair {high low : UInt16} (hhigh : isHigh high = true) (hlow : isLow low = true)
    (rest : List Char) :
    readQuoted (pair high low :: rest) =
      (readQuoted rest).map fun (s, left) => (high :: low :: s, left) := by
  simp only [isHigh, isLow, Bool.and_eq_true, decide_eq_true_eq] at hhigh hlow
  have hpoint : (pair high low).toNat =
      0x10000 + (high.toNat - 0xD800) * 0x400 + (low.toNat - 0xDC00) := by
    refine toNat_ofNat ?_
    unfold Nat.isValidChar
    omega
  have hne : ∀ c : Char, c.toNat < 0x10000 → pair high low ≠ c := by
    rintro c hc rfl
    omega
  have hencode : encode (pair high low) = [high, low] := by
    have hfirst : 0xD800 + ((pair high low).toNat - 0x10000) / 0x400 = high.toNat := by omega
    have hsecond : 0xDC00 + ((pair high low).toNat - 0x10000) % 0x400 = low.toNat := by omega
    rw [encode, if_neg (by omega), hfirst, hsecond, UInt16.ofNat_toNat, UInt16.ofNat_toNat]
  rw [readQuoted_char (hne _ (by decide)) (hne _ (by decide)), hencode]
  rfl

/-- A quoted string is read back, up to its end. -/
theorem readQuoted_quoteUnits (s : JsString) (rest : List Char) :
    readQuoted (quoteUnits s ++ '"' :: rest) = some (s, rest) := by
  fun_induction quoteUnits s with
  | case1 high low more h ih =>
      rw [Bool.and_eq_true] at h
      rw [List.cons_append, readQuoted_pair h.1 h.2, ih]
      rfl
  | case2 high low more h ih =>
      rw [List.append_assoc, readQuoted_quoteUnit, ih]
      rfl
  | case3 unit =>
      rw [readQuoted_quoteUnit, readQuoted]
      rfl
  | case4 => rfl

theorem quote_append_inj {s t : JsString} {r u : List Char} (h : quote s ++ r = quote t ++ u) :
    s = t ∧ r = u := by
  have htail : quoteUnits s ++ '"' :: r = quoteUnits t ++ '"' :: u := by
    simpa [quote] using h
  have hread := congrArg readQuoted htail
  rw [readQuoted_quoteUnits, readQuoted_quoteUnits] at hread
  exact Prod.mk.inj (Option.some.inj hread)

end JsString
end Stim
