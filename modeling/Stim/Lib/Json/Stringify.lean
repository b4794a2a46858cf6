import Stim.Lib.Json.Parse

/-!
# JSON text of a value

`stringify` is the text `JSON.stringify` makes of a value: no white space, and strings quoted as
`JsString.quote` quotes them.  The parser reads the text back as the value.
-/

namespace Stim.Json

/-- The text of a string with its quotation marks. -/
def quoted (s : JsString) : JsString :=
  quotationMark :: (JsString.quoteUnits s).flatMap JsString.encode ++ [quotationMark]

mutual

/-- `JSON.stringify` -/
def stringify : Json → JsString
  | .null => [0x6E, 0x75, 0x6C, 0x6C]
  | .bool true => [0x74, 0x72, 0x75, 0x65]
  | .bool false => [0x66, 0x61, 0x6C, 0x73, 0x65]
  | .number token => token
  | .string s => quoted s
  | .array elements => leftBracket :: stringifyElements elements ++ [rightBracket]
  | .object members => leftBrace :: stringifyMembers members ++ [rightBrace]

def stringifyElements : List Json → JsString
  | [] => []
  | [v] => stringify v
  | v :: w :: vs => stringify v ++ comma :: stringifyElements (w :: vs)

def stringifyMembers : List (JsString × Json) → JsString
  | [] => []
  | [(name, v)] => quoted name ++ colon :: stringify v
  | (name, v) :: m :: ms =>
      quoted name ++ colon :: (stringify v ++ comma :: stringifyMembers (m :: ms))

end

mutual

/-- Every number of a value is written as JSON writes numbers. -/
def Numeric : Json → Prop
  | .number token => isNumber token = true
  | .array elements => NumericElements elements
  | .object members => NumericMembers members
  | _ => True

def NumericElements : List Json → Prop
  | [] => True
  | v :: vs => Numeric v ∧ NumericElements vs

def NumericMembers : List (JsString × Json) → Prop
  | [] => True
  | (_, v) :: ms => Numeric v ∧ NumericMembers ms

end

theorem numericElements_iff {vs : List Json} : NumericElements vs ↔ ∀ v ∈ vs, Numeric v := by
  induction vs with
  | nil => simp [NumericElements]
  | cons v vs ih => simp [NumericElements, ih]

theorem numericMembers_iff {ms : List (JsString × Json)} :
    NumericMembers ms ↔ ∀ m ∈ ms, Numeric m.2 := by
  induction ms with
  | nil => simp [NumericMembers]
  | cons m ms ih =>
      obtain ⟨name, v⟩ := m
      simp [NumericMembers, ih]

/-! ## Strings -/

theorem digit_eq (n : Nat) :
    ∃ d, JsString.encode (Hex.digit n) = [d] ∧ hexValue d = some (n % 16) := by
  have hdigits : ∀ x : Fin 16, ((JsString.encode (Hex.digit x)).map hexValue) = [some x.val] := by
    decide
  have hdigit := hdigits ⟨n % 16, Nat.mod_lt n (by decide)⟩
  rw [Hex.digit_mod] at hdigit
  obtain ⟨d, hencode, hvalue⟩ := List.map_eq_singleton_iff.mp hdigit
  exact ⟨d, hencode, hvalue⟩

variable {text s : JsString}

theorem chars_escape (unit : UInt16) (h : Chars text s) :
    Chars ((JsString.escape unit).flatMap JsString.encode ++ text) (unit :: s) := by
  obtain ⟨a, ha, hva⟩ := digit_eq (unit.toNat / 4096)
  obtain ⟨b, hb, hvb⟩ := digit_eq (unit.toNat / 256)
  obtain ⟨c, hc, hvc⟩ := digit_eq (unit.toNat / 16)
  obtain ⟨d, hd, hvd⟩ := digit_eq unit.toNat
  have hunit : hexUnit a b c d = some unit := by
    have hlt := unit.toNat_lt
    have hnat : 4096 * (unit.toNat / 4096 % 16) + 256 * (unit.toNat / 256 % 16) +
        16 * (unit.toNat / 16 % 16) + unit.toNat % 16 = unit.toNat := by omega
    rw [hexUnit, hva, hvb, hvc, hvd]
    simp only [hnat, UInt16.ofNat_toNat]
  have htext : (JsString.escape unit).flatMap JsString.encode =
      [backslash, 0x75, a, b, c, d] := by
    have hslash : JsString.encode '\\' = [backslash] := rfl
    have hu : JsString.encode 'u' = [0x75] := rfl
    rw [JsString.escape]
    simp only [List.flatMap_cons, List.flatMap_nil, ha, hb, hc, hd, hslash, hu]
    rfl
  rw [htext]
  exact .unicode hunit h

/-- A code unit that stands alone is read back from its quoted form. -/
theorem chars_quoteUnit (unit : UInt16) (h : Chars text s) :
    Chars ((JsString.quoteUnit unit).flatMap JsString.encode ++ text) (unit :: s) := by
  have hshort : ∀ {n : Nat} {c : UInt16}, unit.toNat = n → unescape c = some (UInt16.ofNat n) →
      Chars (backslash :: c :: text) (unit :: s) := by
    intro n c hn hc
    have hunit : UInt16.ofNat n = unit := by rw [← hn, UInt16.ofNat_toNat]
    rw [hunit] at hc
    exact .escape hc h
  unfold JsString.quoteUnit
  split_ifs with h8 h9 h10 h12 h13 h34 h92 hother
  · exact hshort h8 (by decide)
  · exact hshort h9 (by decide)
  · exact hshort h10 (by decide)
  · exact hshort h12 (by decide)
  · exact hshort h13 (by decide)
  · exact hshort h34 (by decide)
  · exact hshort h92 (by decide)
  · exact chars_escape unit h
  · have hlt := unit.toNat_lt
    have hplain : ¬ unit.toNat < 0x20 := fun hsmall => hother (Or.inl hsmall)
    have hvalid : unit.toNat.isValidChar := by
      simp only [not_or, JsString.isHigh, JsString.isLow, Bool.and_eq_true, decide_eq_true_eq,
        not_and] at hother
      unfold Nat.isValidChar
      omega
    have hchar : (Char.ofNat unit.toNat).toNat = unit.toNat := JsString.toNat_ofNat hvalid
    have hencode : JsString.encode (Char.ofNat unit.toNat) = [unit] := by
      rw [JsString.encode, if_pos (by omega), hchar, UInt16.ofNat_toNat]
    rw [List.flatMap_singleton, hencode]
    refine .plain ?_ ?_ hplain h
    · rintro rfl
      exact h34 rfl
    · rintro rfl
      exact h92 rfl

theorem encode_pair {high low : UInt16} (hhigh : JsString.isHigh high = true)
    (hlow : JsString.isLow low = true) :
    JsString.encode (JsString.pair high low) = [high, low] := by
  simp only [JsString.isHigh, JsString.isLow, Bool.and_eq_true, decide_eq_true_eq] at hhigh hlow
  have hpoint : (JsString.pair high low).toNat =
      0x10000 + (high.toNat - 0xD800) * 0x400 + (low.toNat - 0xDC00) := by
    apply JsString.toNat_ofNat
    unfold Nat.isValidChar
    omega
  have hfirst : 0xD800 + ((JsString.pair high low).toNat - 0x10000) / 0x400 = high.toNat := by
    omega
  have hsecond : 0xDC00 + ((JsString.pair high low).toNat - 0x10000) % 0x400 = low.toNat := by
    omega
  rw [JsString.encode, if_neg (by omega), hfirst, hsecond, UInt16.ofNat_toNat,
    UInt16.ofNat_toNat]

theorem chars_pair {high low : UInt16} (hhigh : JsString.isHigh high = true)
    (hlow : JsString.isLow low = true) (h : Chars text s) :
    Chars (high :: low :: text) (high :: low :: s) := by
  simp only [JsString.isHigh, JsString.isLow, Bool.and_eq_true, decide_eq_true_eq] at hhigh hlow
  have hplain : ∀ {u : UInt16} {text s : JsString}, 0xD800 ≤ u.toNat → Chars text s →
      Chars (u :: text) (u :: s) := by
    intro u text s hu h
    refine .plain ?_ ?_ (by omega) h
    · rintro rfl
      exact absurd hu (by decide)
    · rintro rfl
      exact absurd hu (by decide)
  exact hplain hhigh.1 (hplain (by omega) h)

/-- Between its quotation marks a string stands for itself. -/
theorem chars_quoteUnits (s : JsString) :
    Chars ((JsString.quoteUnits s).flatMap JsString.encode) s := by
  fun_induction JsString.quoteUnits s with
  | case1 high low rest h ih =>
      rw [Bool.and_eq_true] at h
      rw [List.flatMap_cons, encode_pair h.1 h.2]
      exact chars_pair h.1 h.2 ih
  | case2 high low rest h ih =>
      rw [List.flatMap_append]
      exact chars_quoteUnit high ih
  | case3 unit =>
      rw [← List.append_nil ((JsString.quoteUnit unit).flatMap JsString.encode)]
      exact chars_quoteUnit unit .nil
  | case4 => exact .nil

/-! ## Values -/

theorem Spaces.nil : Spaces [] := fun _ h => absurd h List.not_mem_nil

variable {v : Json}

theorem grammar_element {text : JsString} (h : Grammar (.value v) text) :
    Grammar (.elements [v]) text := by
  have helement := Grammar.element Spaces.nil h Spaces.nil
  rwa [List.nil_append, List.append_nil] at helement

theorem grammar_elements {vs : List Json} {text more : JsString} (h : Grammar (.value v) text)
    (hmore : Grammar (.elements vs) more) :
    Grammar (.elements (v :: vs)) (text ++ comma :: more) := by
  have helements := Grammar.elements Spaces.nil h Spaces.nil hmore
  rwa [List.nil_append, List.append_nil] at helements

theorem grammar_member {name : JsString} {text : JsString} (h : Grammar (.value v) text) :
    Grammar (.members [(name, v)]) (quoted name ++ colon :: text) := by
  have hmember := Grammar.member Spaces.nil (chars_quoteUnits name) Spaces.nil Spaces.nil h
    Spaces.nil
  rwa [List.nil_append, List.append_nil, List.nil_append, List.append_nil] at hmember

theorem grammar_members {name : JsString} {ms : List (JsString × Json)} {text more : JsString}
    (h : Grammar (.value v) text) (hmore : Grammar (.members ms) more) :
    Grammar (.members ((name, v) :: ms))
      (quoted name ++ colon :: (text ++ comma :: more)) := by
  have hmembers := Grammar.members Spaces.nil (chars_quoteUnits name) Spaces.nil Spaces.nil h
    Spaces.nil hmore
  rwa [List.nil_append, List.append_nil, List.nil_append, List.append_nil] at hmembers

theorem plainValue_number {token : JsString} (h : isNumber token = true) :
    plainValue token = some (.number token) := by
  have hword : token ≠ [0x6E, 0x75, 0x6C, 0x6C] ∧ token ≠ [0x74, 0x72, 0x75, 0x65] ∧
      token ≠ [0x66, 0x61, 0x6C, 0x73, 0x65] := by
    refine ⟨?_, ?_, ?_⟩ <;> rintro rfl <;> exact absurd h (by decide)
  rw [plainValue, if_neg hword.1, if_neg hword.2.1, if_neg hword.2.2, if_pos h]

mutual

theorem grammar_stringify : ∀ v : Json, Numeric v → Grammar (.value v) (stringify v)
  | .null, _ => .plain rfl
  | .bool true, _ => .plain rfl
  | .bool false, _ => .plain rfl
  | .number token, h => .plain (by rw [stringify]; exact plainValue_number h)
  | .string s, _ => .string (chars_quoteUnits s)
  | .array [], _ => .emptyArray Spaces.nil
  | .array (v :: vs), h => .array (grammar_stringifyElements (v :: vs) h (List.cons_ne_nil _ _))
  | .object [], _ => .emptyObject Spaces.nil
  | .object (m :: ms), h => .object (grammar_stringifyMembers (m :: ms) h (List.cons_ne_nil _ _))

theorem grammar_stringifyElements : ∀ vs : List Json, NumericElements vs → vs ≠ [] →
    Grammar (.elements vs) (stringifyElements vs)
  | [], _, hne => absurd rfl hne
  | [v], h, _ => grammar_element (grammar_stringify v h.1)
  | v :: w :: vs, h, _ =>
      grammar_elements (grammar_stringify v h.1)
        (grammar_stringifyElements (w :: vs) h.2 (List.cons_ne_nil _ _))

theorem grammar_stringifyMembers : ∀ ms : List (JsString × Json), NumericMembers ms → ms ≠ [] →
    Grammar (.members ms) (stringifyMembers ms)
  | [], _, hne => absurd rfl hne
  | [(_, v)], h, _ => grammar_member (grammar_stringify v h.1)
  | (_, v) :: m :: ms, h, _ =>
      grammar_members (grammar_stringify v h.1)
        (grammar_stringifyMembers (m :: ms) h.2 (List.cons_ne_nil _ _))

end

/-- What is written of a value is read back, also with white space behind it. -/
theorem parse_stringify (h : Numeric v) {after : JsString} (hafter : Spaces after) :
    parse (stringify v ++ after) = some v :=
  parse_eq_some_iff.mpr ⟨[], stringify v, after, rfl, Spaces.nil, grammar_stringify v h, hafter⟩

end Stim.Json
