import Mathlib.Data.List.TakeWhile
import Stim.Lib.Json

/-!
# What is parsed is what the grammar derives

`parse` accepts the texts that the grammar derives, with white space around them, and gives the
value they are derived for.
-/

namespace Stim.Json

variable {text rest space : JsString}

/-! ## White space -/

theorem spaces_takeWhile (text : JsString) : Spaces (text.takeWhile isSpace) := fun _ hu =>
  List.mem_takeWhile_imp hu

theorem takeWhile_append_skipSpaces (text : JsString) :
    text.takeWhile isSpace ++ skipSpaces text = text :=
  List.takeWhile_append_dropWhile

theorem exists_spaces (text : JsString) : ∃ space, Spaces space ∧ text = space ++ skipSpaces text :=
  ⟨text.takeWhile isSpace, spaces_takeWhile text, (takeWhile_append_skipSpaces text).symm⟩

/-- White space is passed over up to what begins with none. -/
theorem skipSpaces_append (hspace : Spaces space)
    (hrest : ∀ u more, rest = u :: more → isSpace u = false) :
    skipSpaces (space ++ rest) = rest := by
  rw [skipSpaces, List.dropWhile_append_of_pos hspace]
  cases rest with
  | nil => rfl
  | cons u more => rw [List.dropWhile_cons, hrest u more rfl]; rfl

variable {u : UInt16}

theorem skipSpaces_cons (hspace : Spaces space) (hu : isSpace u = false) :
    skipSpaces (space ++ u :: rest) = u :: rest :=
  skipSpaces_append hspace fun v more h => by
    cases h
    exact hu

theorem skipSpaces_nil (hspace : Spaces space) : skipSpaces space = [] := by
  have h : skipSpaces (space ++ []) = [] := skipSpaces_append hspace fun u more h => by cases h
  rwa [List.append_nil] at h

/-! ## Words -/

/-- The units of literals and numbers. -/
def isWord (u : UInt16) : Bool :=
  isDigit u || (0x61 ≤ u.toNat && u.toNat ≤ 0x7A) || u == 0x45 || u == 0x2B || u == 0x2D ||
    u == 0x2E

theorem isWord_of_isDigit (h : isDigit u = true) : isWord u = true := by
  simp [isWord, h]

theorem isWord_of_mem_isDigits (h : isDigits text = true) : ∀ u ∈ text, isWord u = true := by
  intro u hu
  rw [isDigits, Bool.and_eq_true, List.all_eq_true] at h
  exact isWord_of_isDigit (h.2 u hu)

theorem isWord_of_mem_isExponent (h : isExponent text = true) : ∀ u ∈ text, isWord u = true := by
  cases text with
  | nil => exact fun u hu => absurd hu List.not_mem_nil
  | cons e rest =>
      unfold isExponent at h
      rw [Bool.and_eq_true] at h
      have he : isWord e = true := by
        rcases (by simpa using h.1 : e = 0x65 ∨ e = 0x45) with rfl | rfl <;> decide
      have hrest : ∀ u ∈ rest, isWord u = true := by
        cases rest with
        | nil => exact fun u hu => absurd hu List.not_mem_nil
        | cons sign digits =>
            have hdigits := h.2
            simp only at hdigits
            split at hdigits
            · next hsign =>
                intro u hu
                rcases List.mem_cons.mp hu with rfl | hmem
                · rcases hsign with rfl | rfl <;> decide
                · exact isWord_of_mem_isDigits hdigits u hmem
            · exact isWord_of_mem_isDigits hdigits
      intro u hu
      rcases List.mem_cons.mp hu with rfl | hmem
      · exact he
      · exact hrest u hmem

/-- What follows the digits of a run is a word if the run and what follows it are. -/
theorem isWord_of_mem_dropWhile (h : ∀ u ∈ text.dropWhile isDigit, isWord u = true) :
    ∀ u ∈ text, isWord u = true := by
  intro u hu
  rw [← List.takeWhile_append_dropWhile (p := isDigit) (l := text), List.mem_append] at hu
  rcases hu with hdigit | hrest
  · exact isWord_of_isDigit (List.mem_takeWhile_imp hdigit)
  · exact h u hrest

theorem isWord_of_mem_isFraction (h : isFraction text = true) : ∀ u ∈ text, isWord u = true := by
  cases text with
  | nil => exact fun u hu => absurd hu List.not_mem_nil
  | cons point rest =>
      rw [isFraction] at h
      split at h
      · next hpoint =>
          rw [Bool.and_eq_true] at h
          intro u hu
          rcases List.mem_cons.mp hu with rfl | hmem
          · rw [hpoint]
            decide
          · exact isWord_of_mem_dropWhile (isWord_of_mem_isExponent h.2) u hmem
      · exact isWord_of_mem_isExponent h

theorem isWord_of_mem_isUnsigned (h : isUnsigned text = true) : ∀ u ∈ text, isWord u = true := by
  cases text with
  | nil => exact fun u hu => absurd hu List.not_mem_nil
  | cons first rest =>
      rw [isUnsigned] at h
      intro u hu
      split at h
      · next hzero =>
          rcases List.mem_cons.mp hu with rfl | hmem
          · rw [hzero]
            decide
          · exact isWord_of_mem_isFraction h u hmem
      · rw [Bool.and_eq_true] at h
        rcases List.mem_cons.mp hu with rfl | hmem
        · exact isWord_of_isDigit h.1
        · exact isWord_of_mem_dropWhile (isWord_of_mem_isFraction h.2) u hmem

theorem isWord_of_mem_isNumber (h : isNumber text = true) : ∀ u ∈ text, isWord u = true := by
  cases text with
  | nil => exact fun u hu => absurd hu List.not_mem_nil
  | cons first rest =>
      rw [isNumber] at h
      split at h
      · next hminus =>
          intro u hu
          rcases List.mem_cons.mp hu with rfl | hmem
          · rw [hminus]
            decide
          · exact isWord_of_mem_isUnsigned h u hmem
      · exact isWord_of_mem_isUnsigned h

variable {v : Json}

/-- A literal or a number is a word. -/
theorem isWord_of_plainValue (h : plainValue text = some v) :
    text ≠ [] ∧ ∀ u ∈ text, isWord u = true := by
  unfold plainValue at h
  split_ifs at h with hnull htrue hfalse hnumber
  · rw [hnull]
    exact ⟨by decide, List.all_eq_true.mp (by decide)⟩
  · rw [htrue]
    exact ⟨by decide, List.all_eq_true.mp (by decide)⟩
  · rw [hfalse]
    exact ⟨by decide, List.all_eq_true.mp (by decide)⟩
  · refine ⟨?_, isWord_of_mem_isNumber hnumber⟩
    rintro rfl
    cases hnumber

/-- No unit of a word is one that ends a value or begins a string or a container. -/
theorem word_unit (h : isWord u = true) :
    endsValue u = false ∧ u ≠ quotationMark ∧ u ≠ leftBracket ∧ u ≠ leftBrace := by
  have hcodes : ∀ v : UInt16, v.toNat ∈ [0x20, 9, 10, 13, 0x2C, 0x5D, 0x7D, 0x22, 0x5B, 0x7B] →
      u ≠ v := by
    rintro v hv rfl
    simp only [isWord, isDigit, Bool.or_eq_true, Bool.and_eq_true, decide_eq_true_eq,
      beq_iff_eq, ← UInt16.toNat_inj] at h
    simp only [List.mem_cons, List.not_mem_nil, or_false] at hv
    have h1 : (0x45 : UInt16).toNat = 0x45 := rfl
    have h2 : (0x2B : UInt16).toNat = 0x2B := rfl
    have h3 : (0x2D : UInt16).toNat = 0x2D := rfl
    have h4 : (0x2E : UInt16).toNat = 0x2E := rfl
    omega
  refine ⟨?_, hcodes _ (by decide), hcodes _ (by decide), hcodes _ (by decide)⟩
  simp only [endsValue, isSpace, Bool.or_eq_false_iff, beq_eq_false_iff_ne]
  exact ⟨⟨⟨⟨⟨⟨hcodes _ (by decide), hcodes _ (by decide)⟩, hcodes _ (by decide)⟩,
    hcodes _ (by decide)⟩, hcodes _ (by decide)⟩, hcodes _ (by decide)⟩, hcodes _ (by decide)⟩

/-! ## Strings -/

theorem readChars_append {s : JsString} (h : Chars text s) (rest : JsString) :
    readChars (text ++ quotationMark :: rest) = some (s, rest) := by
  induction h with
  | nil =>
      rw [List.nil_append, readChars.eq_def]
      exact if_pos rfl
  | plain hquote hslash hcontrol h ih =>
      rw [List.cons_append, readChars.eq_def]
      simp only [if_neg hquote, if_neg hslash, if_neg hcontrol, ih]
      rfl
  | @escape c u text s hu h ih =>
      have hc : c ≠ 0x75 := by
        rintro rfl
        cases hu
      rw [List.cons_append, List.cons_append, readChars.eq_def]
      simp only [if_neg (show backslash ≠ quotationMark by decide), if_neg hc, hu, ih]
      rfl
  | unicode hu h ih =>
      simp only [List.cons_append]
      rw [readChars.eq_def]
      simp only [if_neg (show backslash ≠ quotationMark by decide), hu, ih]
      rfl

theorem exists_chars {s : JsString} (h : readChars text = some (s, rest)) :
    ∃ front, text = front ++ quotationMark :: rest ∧ Chars front s := by
  induction hn : text.length using Nat.strongRecOn generalizing text s with
  | ind n ih =>
      cases text with
      | nil => cases h
      | cons u more =>
          rw [List.length_cons] at hn
          rw [readChars.eq_def] at h
          simp only at h
          split_ifs at h with hquote hslash hcontrol
          · cases h
            exact ⟨[], by rw [hquote]; rfl, .nil⟩
          · subst hslash
            cases more with
            | nil => cases h
            | cons c more =>
                simp only at h
                rw [List.length_cons] at hn
                split at h
                · next hc =>
                    subst hc
                    split at h
                    · next a b c d more =>
                      simp only [List.length_cons] at hn
                      split at h
                      · next u hu =>
                        obtain ⟨⟨s, rest⟩, hread, heq⟩ := Option.map_eq_some_iff.mp h
                        cases heq
                        obtain ⟨front, rfl, hfront⟩ := ih more.length (by omega) hread rfl
                        exact ⟨_, rfl, .unicode hu hfront⟩
                      · cases h
                    · cases h
                · split at h
                  · next u hu =>
                    obtain ⟨⟨s, rest⟩, hread, heq⟩ := Option.map_eq_some_iff.mp h
                    cases heq
                    obtain ⟨front, rfl, hfront⟩ := ih more.length (by omega) hread rfl
                    exact ⟨_, rfl, .escape hu hfront⟩
                  · cases h
          · obtain ⟨⟨s, rest⟩, hread, heq⟩ := Option.map_eq_some_iff.mp h
            cases heq
            obtain ⟨front, rfl, hfront⟩ := ih more.length (by omega) hread rfl
            exact ⟨_, rfl, .plain hquote hslash hcontrol hfront⟩

/-! ## Every text that is derived is parsed -/

/-- Where a value may end. -/
def Ends (rest : JsString) : Prop := ∀ u more, rest = u :: more → endsValue u = true

theorem ends_cons (hu : endsValue u = true) : Ends (u :: rest) := by
  intro v more h
  cases h
  exact hu

theorem endsValue_of_isSpace (h : isSpace u = true) : endsValue u = true := by
  simp [endsValue, h]

theorem ends_append (hspace : Spaces space) (hrest : Ends rest) : Ends (space ++ rest) := by
  cases space with
  | nil => exact hrest
  | cons u more => exact ends_cons (endsValue_of_isSpace (hspace u List.mem_cons_self))

theorem isSpace_of_endsValue (h : endsValue u = false) : isSpace u = false := by
  cases hspace : isSpace u with
  | false => rfl
  | true => rw [endsValue_of_isSpace hspace] at h; cases h

/-- A value begins with a unit that ends none. -/
theorem exists_first (h : Grammar (.value v) text) :
    ∃ u more, text = u :: more ∧ endsValue u = false := by
  cases h with
  | plain hplain =>
      obtain ⟨hne, hword⟩ := isWord_of_plainValue hplain
      obtain ⟨u, more, rfl⟩ := List.exists_cons_of_ne_nil hne
      exact ⟨u, more, rfl, (word_unit (hword u List.mem_cons_self)).1⟩
  | string => exact ⟨_, _, rfl, by decide⟩
  | emptyArray => exact ⟨_, _, rfl, by decide⟩
  | array => exact ⟨_, _, rfl, by decide⟩
  | emptyObject => exact ⟨_, _, rfl, by decide⟩
  | object => exact ⟨_, _, rfl, by decide⟩

theorem skipSpaces_value (hspace : Spaces space) (h : Grammar (.value v) text) (rest : JsString) :
    skipSpaces (space ++ (text ++ rest)) = text ++ rest := by
  obtain ⟨u, more, rfl, hu⟩ := exists_first h
  exact skipSpaces_cons hspace (isSpace_of_endsValue hu)

/-- Elements begin with no bracket. -/
theorem skipSpaces_elements {vs : List Json} (h : Grammar (.elements vs) text) (rest : JsString) :
    ∃ u more, skipSpaces (text ++ rest) = u :: more ∧ u ≠ rightBracket := by
  have hfirst : ∀ {before front behind : JsString} {v : Json}, Spaces before →
      Grammar (.value v) front → ∃ u more, skipSpaces (before ++ (front ++ behind)) = u :: more ∧
        u ≠ rightBracket := by
    intro before front behind v hbefore hfront
    obtain ⟨u, more, hcons, hu⟩ := exists_first hfront
    refine ⟨u, more ++ behind, ?_, ?_⟩
    · rw [skipSpaces_value hbefore hfront, hcons]
      rfl
    · rintro rfl
      cases hu
  cases h with
  | element hbefore hfront hafter =>
      rw [List.append_assoc, List.append_assoc]
      exact hfirst hbefore hfront
  | elements hbefore hfront hafter hmore =>
      rw [List.append_assoc, List.append_assoc, List.append_assoc]
      exact hfirst hbefore hfront

/-- Members begin with a quotation mark. -/
theorem skipSpaces_members {ms : List (JsString × Json)} (h : Grammar (.members ms) text)
    (rest : JsString) : ∃ more, skipSpaces (text ++ rest) = quotationMark :: more := by
  have hfirst : ∀ {before front : JsString}, Spaces before →
      ∃ more, skipSpaces (before ++ quotationMark :: front) = quotationMark :: more :=
    fun hbefore => ⟨_, skipSpaces_cons hbefore (by decide)⟩
  cases h with
  | member hbefore =>
      simp only [List.append_assoc, List.cons_append]
      exact hfirst hbefore
  | members hbefore =>
      simp only [List.append_assoc, List.cons_append]
      exact hfirst hbefore

/-- A name is read up to behind its colon. -/
theorem readName_append {before key name beforeColon : JsString} (hbefore : Spaces before)
    (hkey : Chars key name) (hbeforeColon : Spaces beforeColon) (rest : JsString) :
    readName (before ++ quotationMark :: (key ++ quotationMark :: (beforeColon ++ colon :: rest))) =
      some (name, rest) := by
  rw [readName, skipSpaces_cons hbefore (by decide)]
  simp only [if_pos, readChars_append hkey,
    skipSpaces_cons hbeforeColon (show isSpace colon = false by decide)]

theorem parseValue_plain {token : JsString} (h : plainValue token = some v) (hrest : Ends rest)
    (fuel : Nat) : parseValue (fuel + 1) (token ++ rest) = some (v, rest) := by
  obtain ⟨hne, hword⟩ := isWord_of_plainValue h
  have hends : ∀ u ∈ token, (!endsValue u) = true := fun u hu => by
    rw [(word_unit (hword u hu)).1]
    rfl
  have htake : (token ++ rest).takeWhile (!endsValue ·) = token := by
    rw [List.takeWhile_append_of_pos hends]
    cases rest with
    | nil => rw [List.takeWhile_nil, List.append_nil]
    | cons u more => rw [List.takeWhile_cons_of_neg (by simp [hrest u more rfl]), List.append_nil]
  have hdrop : (token ++ rest).dropWhile (!endsValue ·) = rest := by
    rw [List.dropWhile_append_of_pos hends]
    cases rest with
    | nil => rfl
    | cons u more => rw [List.dropWhile_cons_of_neg (by simp [hrest u more rfl])]
  obtain ⟨u, more, rfl⟩ := List.exists_cons_of_ne_nil hne
  obtain ⟨-, hquote, hbracket, hbrace⟩ := word_unit (hword u List.mem_cons_self)
  rw [List.cons_append] at htake hdrop ⊢
  rw [parseValue, if_neg hquote, if_neg hbracket, if_neg hbrace, htake, hdrop, h]
  rfl

/-- What is parsed of a text that is derived, with enough fuel. -/
def Parsed : Node → JsString → Prop
  | .value v, text => ∀ rest fuel, Ends rest → text.length + 1 ≤ fuel →
      parseValue fuel (text ++ rest) = some (v, rest)
  | .elements vs, text => ∀ rest fuel, text.length + 2 ≤ fuel →
      parseElements fuel (text ++ rightBracket :: rest) = some (vs, rest)
  | .members ms, text => ∀ rest fuel, text.length + 2 ≤ fuel →
      parseMembers fuel (text ++ rightBrace :: rest) = some (ms, rest)

theorem parsed_of_grammar {node : Node} (h : Grammar node text) : Parsed node text := by
  induction h with
  | plain hplain =>
      intro rest fuel hrest hfuel
      obtain ⟨fuel, rfl⟩ : ∃ n, fuel = n + 1 := ⟨fuel - 1, by omega⟩
      exact parseValue_plain hplain hrest fuel
  | string hchars =>
      intro rest fuel hrest hfuel
      obtain ⟨fuel, rfl⟩ : ∃ n, fuel = n + 1 := ⟨fuel - 1, by omega⟩
      rw [List.cons_append, List.cons_append, List.append_assoc, parseValue, if_pos rfl,
        List.singleton_append, readChars_append hchars]
      rfl
  | emptyArray hspace =>
      intro rest fuel hrest hfuel
      obtain ⟨fuel, rfl⟩ : ∃ n, fuel = n + 1 := ⟨fuel - 1, by omega⟩
      rw [List.cons_append, List.cons_append, List.append_assoc, parseValue,
        if_neg (by decide), if_pos rfl, List.singleton_append, skipSpaces_cons hspace (by decide)]
      simp only [if_pos]
  | array h ih =>
      intro rest fuel hrest hfuel
      obtain ⟨fuel, rfl⟩ : ∃ n, fuel = n + 1 := ⟨fuel - 1, by omega⟩
      obtain ⟨u, more, hfirst, hu⟩ := skipSpaces_elements h (rightBracket :: rest)
      simp only [List.length_append, List.length_cons, List.length_nil] at hfuel
      rw [List.cons_append, List.cons_append, List.append_assoc, parseValue,
        if_neg (by decide), if_pos rfl, List.singleton_append, hfirst]
      simp only
      rw [if_neg hu, ih rest fuel (by omega)]
      rfl
  | emptyObject hspace =>
      intro rest fuel hrest hfuel
      obtain ⟨fuel, rfl⟩ : ∃ n, fuel = n + 1 := ⟨fuel - 1, by omega⟩
      rw [List.cons_append, List.cons_append, List.append_assoc, parseValue,
        if_neg (by decide), if_neg (by decide), if_pos rfl, List.singleton_append,
        skipSpaces_cons hspace (by decide)]
      simp only [if_pos]
  | object h ih =>
      intro rest fuel hrest hfuel
      obtain ⟨fuel, rfl⟩ : ∃ n, fuel = n + 1 := ⟨fuel - 1, by omega⟩
      obtain ⟨more, hfirst⟩ := skipSpaces_members h (rightBrace :: rest)
      simp only [List.length_append, List.length_cons, List.length_nil] at hfuel
      rw [List.cons_append, List.cons_append, List.append_assoc, parseValue,
        if_neg (by decide), if_neg (by decide), if_pos rfl, List.singleton_append, hfirst]
      simp only
      rw [if_neg (by decide), ih rest fuel (by omega)]
      rfl
  | element hbefore h hafter ih =>
      intro rest fuel hfuel
      obtain ⟨fuel, rfl⟩ : ∃ n, fuel = n + 1 := ⟨fuel - 1, by omega⟩
      simp only [List.length_append] at hfuel
      rw [List.append_assoc, List.append_assoc, parseElements, skipSpaces_value hbefore h,
        ih _ fuel (ends_append hafter (ends_cons (by decide))) (by omega)]
      simp only [skipSpaces_cons hafter (show isSpace rightBracket = false by decide), if_pos]
  | elements hbefore h hafter hmore ih ihmore =>
      intro rest fuel hfuel
      obtain ⟨fuel, rfl⟩ : ∃ n, fuel = n + 1 := ⟨fuel - 1, by omega⟩
      simp only [List.length_append, List.length_cons] at hfuel
      rw [List.append_assoc, List.append_assoc, List.append_assoc, parseElements,
        skipSpaces_value hbefore h, List.cons_append,
        ih _ fuel (ends_append hafter (ends_cons (by decide))) (by omega)]
      simp only [skipSpaces_cons hafter (show isSpace comma = false by decide)]
      rw [if_neg (by decide), if_pos trivial, ihmore rest fuel (by omega)]
      rfl
  | member hbefore hkey hbeforeColon hafterColon h hafter ih =>
      intro rest fuel hfuel
      obtain ⟨fuel, rfl⟩ : ∃ n, fuel = n + 1 := ⟨fuel - 1, by omega⟩
      simp only [List.length_append, List.length_cons] at hfuel
      simp only [List.append_assoc, List.cons_append, List.nil_append]
      rw [parseMembers, readName_append hbefore hkey hbeforeColon]
      simp only
      rw [skipSpaces_value hafterColon h,
        ih _ fuel (ends_append hafter (ends_cons (by decide))) (by omega)]
      simp only [skipSpaces_cons hafter (show isSpace rightBrace = false by decide), if_pos]
  | members hbefore hkey hbeforeColon hafterColon h hafter hmore ih ihmore =>
      intro rest fuel hfuel
      obtain ⟨fuel, rfl⟩ : ∃ n, fuel = n + 1 := ⟨fuel - 1, by omega⟩
      simp only [List.length_append, List.length_cons] at hfuel
      simp only [List.append_assoc, List.cons_append, List.nil_append]
      rw [parseMembers, readName_append hbefore hkey hbeforeColon]
      simp only
      rw [skipSpaces_value hafterColon h,
        ih _ fuel (ends_append hafter (ends_cons (by decide))) (by omega)]
      simp only [skipSpaces_cons hafter (show isSpace comma = false by decide)]
      rw [if_neg (by decide), if_pos trivial, ihmore rest fuel (by omega)]
      rfl

/-! ## Every text that is parsed is derived -/

/-- The white space before what is read next. -/
theorem exists_spaces_of_skip (h : skipSpaces text = u :: rest) :
    ∃ space, Spaces space ∧ text = space ++ u :: rest := by
  obtain ⟨space, hspace, htext⟩ := exists_spaces text
  exact ⟨space, hspace, by rw [htext, h]⟩

theorem exists_name {name : JsString} (h : readName text = some (name, rest)) :
    ∃ before key beforeColon, text = before ++ (quotationMark :: key ++ [quotationMark]) ++
      beforeColon ++ colon :: rest ∧ Spaces before ∧ Chars key name ∧ Spaces beforeColon := by
  unfold readName at h
  split at h
  · cases h
  · next u behind hskip =>
    obtain ⟨before, hbefore, rfl⟩ := exists_spaces_of_skip hskip
    split_ifs at h with hquote
    split at h
    · cases h
    · next read more hread =>
      obtain ⟨key, rfl, hkey⟩ := exists_chars hread
      split at h
      · cases h
      · next v behind hskip =>
        obtain ⟨beforeColon, hbeforeColon, rfl⟩ := exists_spaces_of_skip hskip
        split_ifs at h with hcolon
        cases h
        refine ⟨before, key, beforeColon, ?_, hbefore, hkey, hbeforeColon⟩
        rw [hquote, hcolon]
        simp

/-- What is derived if it is parsed. -/
structure Derived (fuel : Nat) : Prop where
  value : ∀ {text v rest}, parseValue fuel text = some (v, rest) →
    ∃ front, text = front ++ rest ∧ Grammar (.value v) front
  elements : ∀ {text vs rest}, parseElements fuel text = some (vs, rest) →
    ∃ front, text = front ++ rightBracket :: rest ∧ Grammar (.elements vs) front
  members : ∀ {text ms rest}, parseMembers fuel text = some (ms, rest) →
    ∃ front, text = front ++ rightBrace :: rest ∧ Grammar (.members ms) front

theorem Derived.value_succ {fuel : Nat} (ih : Derived fuel) {text rest : JsString}
    (h : parseValue (fuel + 1) text = some (v, rest)) :
    ∃ front, text = front ++ rest ∧ Grammar (.value v) front := by
  cases text with
  | nil => rw [parseValue] at h; cases h
  | cons u more =>
      rw [parseValue] at h
      split_ifs at h with hquote hbracket hbrace
      · obtain ⟨⟨s, behind⟩, hread, heq⟩ := Option.map_eq_some_iff.mp h
        cases heq
        obtain ⟨key, rfl, hkey⟩ := exists_chars hread
        exact ⟨_, by rw [hquote]; simp, .string hkey⟩
      · split at h
        · cases h
        · next first behind hskip =>
          split_ifs at h with hempty
          · cases h
            obtain ⟨space, hspace, rfl⟩ := exists_spaces_of_skip hskip
            exact ⟨_, by rw [hbracket, hempty]; simp, .emptyArray hspace⟩
          · obtain ⟨⟨vs, behind⟩, hread, heq⟩ := Option.map_eq_some_iff.mp h
            cases heq
            obtain ⟨front, rfl, hfront⟩ := ih.elements hread
            exact ⟨_, by rw [hbracket]; simp, .array hfront⟩
      · split at h
        · cases h
        · next first behind hskip =>
          split_ifs at h with hempty
          · cases h
            obtain ⟨space, hspace, rfl⟩ := exists_spaces_of_skip hskip
            exact ⟨_, by rw [hbrace, hempty]; simp, .emptyObject hspace⟩
          · obtain ⟨⟨ms, behind⟩, hread, heq⟩ := Option.map_eq_some_iff.mp h
            cases heq
            obtain ⟨front, rfl, hfront⟩ := ih.members hread
            exact ⟨_, by rw [hbrace]; simp, .object hfront⟩
      · obtain ⟨w, hplain, heq⟩ := Option.map_eq_some_iff.mp h
        cases heq
        exact ⟨_, List.takeWhile_append_dropWhile.symm, .plain hplain⟩

theorem Derived.elements_succ {fuel : Nat} (ih : Derived fuel) {text rest : JsString}
    {vs : List Json} (h : parseElements (fuel + 1) text = some (vs, rest)) :
    ∃ front, text = front ++ rightBracket :: rest ∧ Grammar (.elements vs) front := by
  obtain ⟨before, hbefore, htext⟩ := exists_spaces text
  rw [parseElements] at h
  split at h
  · cases h
  · next v behind hvalue =>
    obtain ⟨front, hfront, hgrammar⟩ := ih.value hvalue
    rw [htext, hfront]
    split at h
    · cases h
    · next u more hskip =>
      obtain ⟨after, hafter, rfl⟩ := exists_spaces_of_skip hskip
      split_ifs at h with hbracket hcomma
      · cases h
        exact ⟨_, by rw [hbracket]; simp, .element hbefore hgrammar hafter⟩
      · obtain ⟨⟨vs, behind⟩, hread, heq⟩ := Option.map_eq_some_iff.mp h
        cases heq
        obtain ⟨others, rfl, hothers⟩ := ih.elements hread
        exact ⟨_, by rw [hcomma]; simp, .elements hbefore hgrammar hafter hothers⟩

theorem Derived.members_succ {fuel : Nat} (ih : Derived fuel) {text rest : JsString}
    {ms : List (JsString × Json)} (h : parseMembers (fuel + 1) text = some (ms, rest)) :
    ∃ front, text = front ++ rightBrace :: rest ∧ Grammar (.members ms) front := by
  rw [parseMembers] at h
  split at h
  · cases h
  · next name named hname =>
    obtain ⟨before, key, beforeColon, rfl, hbefore, hkey, hbeforeColon⟩ := exists_name hname
    obtain ⟨afterColon, hafterColon, htext⟩ := exists_spaces named
    split at h
    · cases h
    · next v behind hvalue =>
      obtain ⟨front, hfront, hgrammar⟩ := ih.value hvalue
      rw [htext, hfront]
      split at h
      · cases h
      · next u more hskip =>
        obtain ⟨after, hafter, rfl⟩ := exists_spaces_of_skip hskip
        split_ifs at h with hbrace hcomma
        · cases h
          exact ⟨_, by rw [hbrace]; simp,
            .member hbefore hkey hbeforeColon hafterColon hgrammar hafter⟩
        · obtain ⟨⟨ms, behind⟩, hread, heq⟩ := Option.map_eq_some_iff.mp h
          cases heq
          obtain ⟨others, rfl, hothers⟩ := ih.members hread
          exact ⟨_, by rw [hcomma]; simp,
            .members hbefore hkey hbeforeColon hafterColon hgrammar hafter hothers⟩

theorem derived (fuel : Nat) : Derived fuel := by
  induction fuel with
  | zero =>
      refine ⟨fun h => ?_, fun h => ?_, fun h => ?_⟩
      · rw [parseValue] at h; cases h
      · rw [parseElements] at h; cases h
      · rw [parseMembers] at h; cases h
  | succ fuel ih => exact ⟨ih.value_succ, ih.elements_succ, ih.members_succ⟩

/-- A text is parsed exactly if it is derived, with white space around it. -/
theorem parse_eq_some_iff : parse text = some v ↔
    ∃ before front after, text = before ++ front ++ after ∧ Spaces before ∧
      Grammar (.value v) front ∧ Spaces after := by
  constructor
  · intro h
    unfold parse at h
    obtain ⟨before, hbefore, htext⟩ := exists_spaces text
    split at h
    · cases h
    · next w rest hvalue =>
      obtain ⟨front, hfront, hgrammar⟩ := (derived _).value hvalue
      split_ifs at h with hempty
      cases h
      obtain ⟨after, hafter, hrest⟩ := exists_spaces rest
      rw [List.isEmpty_iff.mp hempty, List.append_nil] at hrest
      subst hrest
      exact ⟨before, front, rest, by rw [List.append_assoc, ← hfront]; exact htext, hbefore,
        hgrammar, hafter⟩
  · rintro ⟨before, front, after, rfl, hbefore, hgrammar, hafter⟩
    have hends : Ends after := by
      rw [← List.append_nil after]
      exact ends_append hafter fun u more h => by cases h
    have hvalue := parsed_of_grammar hgrammar after ((before ++ front ++ after).length + 1) hends
      (by simp only [List.length_append]; omega)
    rw [parse, List.append_assoc, skipSpaces_value hbefore hgrammar, ← List.append_assoc, hvalue]
    simp only [skipSpaces_nil hafter, List.isEmpty_nil, if_pos]

end Stim.Json
