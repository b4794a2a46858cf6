import Stim.Lib.JsString

/-!
# Text in XML

Character references are decoded, decimal ones and hexadecimal ones, and an element's content is
the text behind its start tag up to the next tag.
-/

namespace Stim.XmlText

def digit (unit : UInt16) : Option Nat :=
  if 48 ≤ unit.toNat ∧ unit.toNat ≤ 57 then some (unit.toNat - 48) else none

def hexDigit (unit : UInt16) : Option Nat :=
  if 97 ≤ unit.toNat ∧ unit.toNat ≤ 102 then some (unit.toNat - 87)
  else if 65 ≤ unit.toNat ∧ unit.toNat ≤ 70 then some (unit.toNat - 55)
  else digit unit

def ampersand : UInt16 := 38

def hash : UInt16 := 35

def semicolon : UInt16 := 59

def lowerX : UInt16 := 120

def lessThan : UInt16 := 60

/-- A number up to a semicolon, with at least one digit, and what follows it. -/
def readNumber (base : Nat) (digitOf : UInt16 → Option Nat) (number : Option Nat) :
    JsString → Option (Nat × JsString)
  | [] => none
  | unit :: rest =>
      if unit = semicolon then number.map fun n => (n, rest)
      else
        (digitOf unit).bind fun d =>
          readNumber base digitOf (some (number.getD 0 * base + d)) rest

/-- A character reference behind its ampersand, and what follows it. -/
def readReference : JsString → Option (Nat × JsString)
  | first :: second :: rest =>
      if first ≠ hash then none
      else if second = lowerX then readNumber 16 hexDigit none rest
      else readNumber 10 digit none (second :: rest)
  | _ => none

/-- A text with its character references decoded, in so many steps. -/
def decodeWithin : Nat → JsString → JsString
  | 0, text => text
  | _, [] => []
  | steps + 1, unit :: rest =>
      match if unit = ampersand then readReference rest else none with
      | some (n, rest) => JsString.encode (Char.ofNat n) ++ decodeWithin steps rest
      | none => unit :: decodeWithin steps rest

/-- A reference is longer than what it stands for, so a step for each unit is enough. -/
def decodeReferences (text : JsString) : JsString := decodeWithin text.length text

/-- What follows the first start tag of a name. -/
def afterTag (tag : JsString) : JsString → Option JsString
  | [] => none
  | unit :: rest =>
      if tag.isPrefixOf (unit :: rest) then some ((unit :: rest).drop tag.length)
      else afterTag tag rest

/-- The text of the first element of a name, with its references. -/
def elementText (tag document : JsString) : Option JsString :=
  (afterTag tag document).map fun rest => rest.takeWhile (· != lessThan)

/-! ## Escaped text -/

/-- A unit as a decimal reference of two digits. -/
def reference (unit : UInt16) : JsString :=
  [ampersand, hash, UInt16.ofNat (48 + unit.toNat / 10), UInt16.ofNat (48 + unit.toNat % 10),
    semicolon]

/-- A text whose units that satisfy `special` are references. -/
def escaped (special : UInt16 → Bool) (text : JsString) : JsString :=
  text.flatMap fun unit => if special unit then reference unit else [unit]

section escaped

variable {special : UInt16 → Bool}

variable {unit : UInt16}

theorem readReference_reference (h : unit.toNat < 100) (rest : JsString) :
    readReference ((reference unit).tail ++ rest) = some (unit.toNat, rest) := by
  have hTens : (UInt16.ofNat (48 + unit.toNat / 10)).toNat = 48 + unit.toNat / 10 := by
    rw [UInt16.toNat_ofNat']
    omega
  have hOnes : (UInt16.ofNat (48 + unit.toNat % 10)).toNat = 48 + unit.toNat % 10 := by
    rw [UInt16.toNat_ofNat']
    omega
  generalize hTens' : UInt16.ofNat (48 + unit.toNat / 10) = tens at hTens
  generalize hOnes' : UInt16.ofNat (48 + unit.toNat % 10) = ones at hOnes
  have hX : tens ≠ lowerX := by
    rintro rfl
    rw [lowerX] at hTens
    simp at hTens
    omega
  have hTensEnd : tens ≠ semicolon := by
    rintro rfl
    rw [semicolon] at hTens
    simp at hTens
    omega
  have hOnesEnd : ones ≠ semicolon := by
    rintro rfl
    rw [semicolon] at hOnes
    simp at hOnes
    omega
  have hTensDigit : digit tens = some (unit.toNat / 10) := by
    rw [digit, hTens, if_pos (by omega), Nat.add_sub_cancel_left]
  have hOnesDigit : digit ones = some (unit.toNat % 10) := by
    rw [digit, hOnes, if_pos (by omega), Nat.add_sub_cancel_left]
  rw [reference, hTens', hOnes']
  simp only [List.tail_cons, List.cons_append, List.nil_append, readReference, ne_eq,
    not_true_eq_false, if_false, hX, readNumber, hTensEnd, hOnesEnd, hTensDigit, hOnesDigit,
    Option.bind_some, Option.getD_none, Option.getD_some, if_true, Option.map_some]
  congr 2
  omega

theorem encode_ofNat (h : unit.toNat < 100) : JsString.encode (Char.ofNat unit.toNat) = [unit] := by
  have hValid : unit.toNat.isValidChar := Or.inl (by omega)
  have hChar : (Char.ofNat unit.toNat).toNat = unit.toNat := JsString.toNat_ofNat hValid
  rw [JsString.encode, hChar, if_pos (by omega), UInt16.ofNat_toNat]

/-- Each unit of an escaped text takes a step. -/
theorem decodeWithin_escaped (hAmpersand : special ampersand = true)
    (hSpecial : ∀ unit, special unit = true → unit.toNat < 100) {text : JsString} {steps : Nat}
    (h : text.length ≤ steps) : decodeWithin steps (escaped special text) = text := by
  induction text generalizing steps with
  | nil => cases steps <;> rfl
  | cons unit text ih =>
      rw [List.length_cons] at h
      obtain ⟨steps, rfl⟩ : ∃ n, steps = n + 1 := ⟨steps - 1, by omega⟩
      have hRest : decodeWithin steps (escaped special text) = text := ih (by omega)
      rw [escaped] at hRest
      rw [escaped, List.flatMap_cons]
      cases hUnit : special unit with
      | true =>
          have hRead := readReference_reference (hSpecial unit hUnit)
            (text.flatMap fun unit => if special unit then reference unit else [unit])
          have hCons : reference unit = ampersand :: (reference unit).tail := rfl
          rw [if_pos rfl, hCons, List.cons_append, decodeWithin, if_pos rfl, hRead]
          dsimp only
          rw [hRest, encode_ofNat (hSpecial unit hUnit)]
          rfl
      | false =>
          have hOther : unit ≠ ampersand := by
            rintro rfl
            rw [hAmpersand] at hUnit
            cases hUnit
          rw [if_neg (by decide), List.singleton_append, decodeWithin, if_neg hOther]
          dsimp only
          rw [hRest]

theorem length_escaped (text : JsString) : text.length ≤ (escaped special text).length := by
  induction text with
  | nil => exact Nat.le_refl _
  | cons unit text ih =>
      rw [escaped] at ih
      rw [escaped, List.flatMap_cons, List.length_append, List.length_cons]
      have hUnit : 1 ≤ (if special unit then reference unit else [unit]).length := by
        split_ifs
        · exact Nat.succ_le_succ (Nat.zero_le _)
        · exact Nat.le_refl _
      omega

theorem decodeReferences_escaped (hAmpersand : special ampersand = true)
    (hSpecial : ∀ unit, special unit = true → unit.toNat < 100) (text : JsString) :
    decodeReferences (escaped special text) = text :=
  decodeWithin_escaped hAmpersand hSpecial (length_escaped text)

theorem lessThan_not_mem_reference (h : unit.toNat < 100) : lessThan ∉ reference unit := by
  have hTens : (UInt16.ofNat (48 + unit.toNat / 10)).toNat = 48 + unit.toNat / 10 := by
    rw [UInt16.toNat_ofNat']
    omega
  have hOnes : (UInt16.ofNat (48 + unit.toNat % 10)).toNat = 48 + unit.toNat % 10 := by
    rw [UInt16.toNat_ofNat']
    omega
  have hLess : lessThan.toNat = 60 := rfl
  intro hMem
  simp only [reference, List.mem_cons, List.not_mem_nil, or_false] at hMem
  rcases hMem with h' | h' | h' | h' | h'
  · exact absurd h' (by decide)
  · exact absurd h' (by decide)
  · rw [h'] at hLess
    omega
  · rw [h'] at hLess
    omega
  · exact absurd h' (by decide)

/-- No tag begins in a text whose `<` is special. -/
theorem lessThan_not_mem_escaped (hLess : special lessThan = true)
    (hSpecial : ∀ unit, special unit = true → unit.toNat < 100) (text : JsString) :
    lessThan ∉ escaped special text := by
  intro hMem
  obtain ⟨unit, -, hUnit⟩ := List.mem_flatMap.mp hMem
  cases hCase : special unit with
  | true =>
      rw [if_pos hCase] at hUnit
      exact lessThan_not_mem_reference (hSpecial unit hCase) hUnit
  | false =>
      rw [hCase, if_neg (by decide), List.mem_singleton] at hUnit
      rw [← hUnit, hLess] at hCase
      cases hCase

end escaped

/-! ## Tags -/

/-- Whether the tag begins nowhere in a text, whatever follows the text. -/
def misses (tag : JsString) : JsString → Bool
  | [] => true
  | unit :: rest =>
      !(unit :: rest).isPrefixOf tag && !tag.isPrefixOf (unit :: rest) && misses tag rest

section tag

variable {tag text : JsString}

theorem misses_cons {unit : UInt16} {rest : JsString} : misses tag (unit :: rest) = true ↔
    ¬ (unit :: rest) <+: tag ∧ ¬ tag <+: unit :: rest ∧ misses tag rest = true := by
  simp only [misses, Bool.and_eq_true, Bool.not_eq_true', ← Bool.not_eq_true,
    List.isPrefixOf_iff_prefix, and_assoc]

/-- A text that misses a tag does so in front of any text. -/
theorem not_prefix_append {unit : UInt16} {rest : JsString} (h : misses tag (unit :: rest) = true)
    (more : JsString) : ¬ (unit :: rest ++ more) <+: tag ∧ ¬ tag <+: unit :: rest ++ more := by
  obtain ⟨hInTag, hTag, -⟩ := misses_cons.mp h
  constructor
  · intro hPrefix
    exact hInTag ((List.prefix_append _ _).trans hPrefix)
  · intro hPrefix
    rcases List.prefix_or_prefix_of_prefix hPrefix (List.prefix_append (unit :: rest) more) with
      hShort | hLong
    · exact hTag hShort
    · exact hInTag hLong

theorem misses_append {more : JsString} (h : misses tag text = true)
    (hMore : misses tag more = true) : misses tag (text ++ more) = true := by
  induction text with
  | nil => exact hMore
  | cons unit text ih =>
      obtain ⟨hInTag, hTag⟩ := not_prefix_append h more
      have hRest := ih (misses_cons.mp h).2.2
      exact misses_cons.mpr ⟨hInTag, hTag, hRest⟩

theorem afterTag_misses (h : misses tag text = true) (rest : JsString) :
    afterTag tag (text ++ rest) = afterTag tag rest := by
  induction text with
  | nil => rfl
  | cons unit text ih =>
      have hTag := (not_prefix_append h rest).2
      rw [List.cons_append] at hTag ⊢
      rw [afterTag, if_neg (by simpa using hTag)]
      exact ih (misses_cons.mp h).2.2

theorem misses_of_not_mem {name : JsString} (h : lessThan ∉ text) :
    misses (lessThan :: name) text = true := by
  induction text with
  | nil => rfl
  | cons unit text ih =>
      rw [List.mem_cons, not_or] at h
      have hRest := ih h.2
      refine misses_cons.mpr ⟨fun hPrefix => ?_, fun hPrefix => ?_, hRest⟩
      · exact h.1 (List.cons_prefix_cons.mp hPrefix).1.symm
      · exact h.1 (List.cons_prefix_cons.mp hPrefix).1

theorem afterTag_self (hTag : tag ≠ []) (rest : JsString) :
    afterTag tag (tag ++ rest) = some rest := by
  cases tag with
  | nil => exact absurd rfl hTag
  | cons unit tag =>
      rw [List.cons_append, afterTag, if_pos (by simp), ← List.cons_append, List.drop_left]

/-- The element behind a text that misses its tag. -/
theorem elementText_misses {content rest : JsString} (hTag : tag ≠ [])
    (h : misses tag text = true) (hContent : lessThan ∉ content) :
    elementText tag (text ++ (tag ++ (content ++ lessThan :: rest))) = some content := by
  have hStop : (content ++ lessThan :: rest).takeWhile (· != lessThan) = content := by
    rw [List.takeWhile_append_of_pos]
    · simp
    · intro unit hUnit
      rw [bne_iff_ne]
      rintro rfl
      exact hContent hUnit
  rw [elementText, afterTag_misses h, afterTag_self hTag, Option.map_some, hStop]

end tag

end Stim.XmlText
