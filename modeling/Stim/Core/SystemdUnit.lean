import Mathlib.Data.List.TakeWhile
import Stim.Lib.Json
import Stim.Lib.Whitespace

/-!
# Values of a systemd unit

`packages/core/systemd-unit.ts`: the words of a unit value, as `quoteUnitWord` writes and
`unitWords` reads them, and the lines of a unit file.  A list of words is read back as it was
written.
-/

namespace Stim.SystemdUnit

open Json Whitespace

abbrev percent : UInt16 := 0x25

abbrev dollar : UInt16 := 0x24

abbrev equalsSign : UInt16 := 0x3D

abbrev lineFeed : UInt16 := 0x0A

abbrev space : UInt16 := 0x20

/-- What `.` does not match. -/
def isLineTerminator (u : UInt16) : Bool :=
  u == 0x0A || u == 0x0D || u == 0x2028 || u == 0x2029

/-! ## Words -/

/-- The replacement of one unit; in `ExecStart=` systemd expands variables. -/
def quoteUnit (exec : Bool) (u : UInt16) : JsString :=
  if u = percent then [percent, percent]
  else if u = dollar then if exec then [dollar, dollar] else [dollar]
  else if u = backslash then [backslash, backslash]
  else if u = quotationMark then [backslash, quotationMark]
  else if u = 0x0A then [backslash, 0x6E]
  else if u = 0x09 then [backslash, 0x74]
  else if u = 0x0D then [backslash, 0x72]
  else [u]

/-- One double-quoted word. -/
def quoteUnitWord (value : JsString) (exec : Bool) : JsString :=
  quotationMark :: value.flatMap (quoteUnit exec) ++ [quotationMark]

/-- `((?:[^"\\]|\\.)*)"`: the text before the closing quotation mark, and what follows it. -/
def readQuoted : JsString → Option (JsString × JsString)
  | [] => none
  | u :: rest =>
      if u = quotationMark then some ([], rest)
      else if u = backslash then
        match rest with
        | [] => none
        | c :: rest =>
            if isLineTerminator c then none
            else (readQuoted rest).map fun (raw, rest) => (backslash :: c :: raw, rest)
      else (readQuoted rest).map fun (raw, rest) => (u :: raw, rest)

/-- One match of the pattern: the text of a word and what follows it. -/
def readWord (line : JsString) : Option (JsString × JsString) :=
  match line.dropWhile isSpaceUnit with
  | [] => none
  | u :: rest =>
      if u = quotationMark then readQuoted rest
      else some ((u :: rest).takeWhile fun c => !isSpaceUnit c && c != quotationMark,
        (u :: rest).dropWhile fun c => !isSpaceUnit c && c != quotationMark)

def unescape (c : UInt16) : UInt16 :=
  if c = 0x6E then 0x0A else if c = 0x74 then 0x09 else if c = 0x72 then 0x0D else c

/-- `raw.replace(/\\(.)|%%|\$\$/g, …)` -/
def unescapeWord (exec : Bool) : JsString → JsString
  | [] => []
  | [u] => [u]
  | u :: c :: rest =>
      if u = backslash ∧ isLineTerminator c = false then unescape c :: unescapeWord exec rest
      else if u = percent ∧ c = percent then percent :: unescapeWord exec rest
      else if u = dollar ∧ c = dollar then
        (if exec then [dollar] else [dollar, dollar]) ++ unescapeWord exec rest
      else u :: unescapeWord exec (c :: rest)

theorem length_of_readQuoted {line raw rest : JsString} (h : readQuoted line = some (raw, rest)) :
    rest.length < line.length := by
  fun_induction readQuoted line generalizing raw with
  | case1 => cases h
  | case2 => cases h; exact Nat.lt_succ_self _
  | case3 => cases h
  | case4 => cases h
  | case5 hquote c behind hterminator ih =>
      obtain ⟨⟨raw, rest⟩, hread, heq⟩ := Option.map_eq_some_iff.mp h
      cases heq
      have := ih hread
      simp only [List.length_cons]
      omega
  | case6 u behind hquote hslash ih =>
      obtain ⟨⟨raw, rest⟩, hread, heq⟩ := Option.map_eq_some_iff.mp h
      cases heq
      have := ih hread
      simp only [List.length_cons]
      omega

theorem length_of_readWord {line raw rest : JsString} (h : readWord line = some (raw, rest)) :
    rest.length < line.length := by
  have hdrop := List.length_dropWhile_le isSpaceUnit line
  unfold readWord at h
  split at h
  · cases h
  · next u behind hcons =>
    rw [hcons, List.length_cons] at hdrop
    split at h
    · have := length_of_readQuoted h
      omega
    · next hquote =>
      cases h
      have hfirst : isSpaceUnit u = false := by
        have := List.head_dropWhile_not isSpaceUnit (l := line) (by rw [hcons]; simp)
        simpa [hcons] using this
      rw [List.dropWhile_cons, hfirst]
      have := List.length_dropWhile_le (fun c => !isSpaceUnit c && c != quotationMark) behind
      simp only [Bool.not_false, bne_iff_ne, ne_eq, hquote, not_false_eq_true, Bool.true_and,
        if_true]
      omega

/-- The words of a unit value that `quoteUnitWord` wrote, or null. -/
def unitWords (line : JsString) (exec : Bool) : Option (List JsString) :=
  if (trimUnits line).isEmpty then some []
  else match _h : readWord line with
    | none => none
    | some (raw, rest) => (unitWords rest exec).map (unescapeWord exec raw :: ·)
termination_by line.length
decreasing_by exact length_of_readWord _h

/-! ## Lines -/

structure UnitLine where
  sectionName : JsString
  key : JsString
  value : JsString
  deriving DecidableEq

/-- `/^\[(.+)\]$/` -/
def headerOf (trimmed : JsString) : Option JsString :=
  match trimmed with
  | [] => none
  | u :: rest =>
      if u = leftBracket ∧ rest.getLast? = some rightBracket ∧ rest.dropLast ≠ [] ∧
          rest.dropLast.all (!isLineTerminator ·) then some rest.dropLast
      else none

def isSkipped (trimmed : JsString) : Bool :=
  match trimmed with
  | [] => true
  | u :: _ => u == 0x23 || u == 0x3B

def linesFrom (sectionName : JsString) : List JsString → List UnitLine
  | [] => []
  | line :: rest =>
      let trimmed := trimUnits line
      if isSkipped trimmed then linesFrom sectionName rest
      else match headerOf trimmed with
        | some header => linesFrom header rest
        | none =>
            match trimmed.findIdx? (· == equalsSign) with
            | some (n + 1) =>
                ⟨sectionName, trimUnits (trimmed.take (n + 1)), trimUnits (trimmed.drop (n + 2))⟩ ::
                  linesFrom sectionName rest
            | _ => linesFrom sectionName rest

/-- The `key=value` lines of a unit file with the section each is in. -/
def unitLines (text : JsString) : List UnitLine := linesFrom [] (text.splitOn lineFeed)

/-! ## Words are read back -/

variable {value rest : JsString} {exec : Bool}

/-- A unit is escaped, doubled or kept. -/
theorem quoteUnit_cases (exec : Bool) (u : UInt16) :
    (∃ c, quoteUnit exec u = [backslash, c] ∧ isLineTerminator c = false ∧ unescape c = u) ∨
    (quoteUnit exec u = [u, u] ∧ (u = percent ∨ u = dollar ∧ exec = true)) ∨
    (quoteUnit exec u = [u] ∧ u ≠ quotationMark ∧ u ≠ backslash ∧ u ≠ percent ∧
      (u = dollar → exec = false) ∧ u ≠ lineFeed) := by
  unfold quoteUnit
  split_ifs with h1 h2 h3 h4 h5 h6 h7 h8
  · exact Or.inr (Or.inl ⟨by rw [h1], Or.inl h1⟩)
  · exact Or.inr (Or.inl ⟨by rw [h2], Or.inr ⟨h2, h3⟩⟩)
  · refine Or.inr (Or.inr ⟨by rw [h2], ?_⟩)
    subst h2
    exact ⟨by decide, by decide, by decide, fun _ => eq_false_of_ne_true h3, by decide⟩
  · exact Or.inl ⟨_, rfl, by decide, by rw [h4]; decide⟩
  · exact Or.inl ⟨_, rfl, by decide, by rw [h5]; decide⟩
  · exact Or.inl ⟨_, rfl, by decide, by rw [h6]; decide⟩
  · exact Or.inl ⟨_, rfl, by decide, by rw [h7]; decide⟩
  · exact Or.inl ⟨_, rfl, by decide, by rw [h8]; decide⟩
  · exact Or.inr (Or.inr ⟨rfl, h5, h4, h1, fun h => absurd h h2, h6⟩)

variable {text : JsString}

theorem readQuoted_slash {c : UInt16} (hc : isLineTerminator c = false) :
    readQuoted (backslash :: c :: text) =
      (readQuoted text).map fun (raw, rest) => (backslash :: c :: raw, rest) := by
  rw [readQuoted.eq_def]
  simp only
  rw [if_neg (by decide), if_pos trivial, hc]
  rfl

variable {u : UInt16}

theorem readQuoted_plain (hquote : u ≠ quotationMark) (hslash : u ≠ backslash) :
    readQuoted (u :: text) = (readQuoted text).map fun (raw, rest) => (u :: raw, rest) := by
  rw [readQuoted.eq_def]
  simp only
  rw [if_neg hquote, if_neg hslash]

theorem readQuoted_quote (rest : JsString) :
    readQuoted (value.flatMap (quoteUnit exec) ++ quotationMark :: rest) =
      some (value.flatMap (quoteUnit exec), rest) := by
  induction value with
  | nil =>
      rw [List.flatMap_nil, List.nil_append, readQuoted.eq_def]
      exact if_pos rfl
  | cons u value ih =>
      rw [List.flatMap_cons, List.append_assoc]
      rcases quoteUnit_cases exec u with ⟨c, hu, hc, -⟩ | ⟨hu, hdouble⟩ | ⟨hu, hquote, hslash, -⟩
      · rw [hu, List.cons_append, List.cons_append, List.nil_append, readQuoted_slash hc, ih]
        rfl
      · have hne : u ≠ quotationMark ∧ u ≠ backslash := by
          rcases hdouble with rfl | ⟨rfl, -⟩ <;> decide
        rw [hu, List.cons_append, List.cons_append, List.nil_append, readQuoted_plain hne.1 hne.2,
          readQuoted_plain hne.1 hne.2, ih]
        rfl
      · rw [hu, List.cons_append, List.nil_append, readQuoted_plain hquote hslash, ih]
        rfl

theorem unescapeWord_slash {c : UInt16} (hc : isLineTerminator c = false) :
    unescapeWord exec (backslash :: c :: text) = unescape c :: unescapeWord exec text := by
  rw [unescapeWord, if_pos ⟨rfl, hc⟩]

theorem unescapeWord_double (h : u = percent ∨ u = dollar ∧ exec = true) :
    unescapeWord exec (u :: u :: text) = u :: unescapeWord exec text := by
  rcases h with rfl | ⟨rfl, rfl⟩
  · rw [unescapeWord, if_neg (by decide), if_pos ⟨rfl, rfl⟩]
  · rw [unescapeWord, if_neg (by decide), if_neg (by decide), if_pos ⟨rfl, rfl⟩]
    rfl

/-- A unit that is not doubled is kept: two dollars of which neither is doubled stay two. -/
theorem unescapeWord_plain (text : JsString) (hslash : u ≠ backslash) (hpercent : u ≠ percent)
    (hdollar : u = dollar → exec = false) :
    unescapeWord exec (u :: text) = u :: unescapeWord exec text := by
  induction hn : text.length using Nat.strongRecOn generalizing text with
  | ind n ih =>
      cases text with
      | nil => rfl
      | cons c text =>
          rw [unescapeWord, if_neg (fun h => hslash h.1), if_neg (fun h => hpercent h.1)]
          split
          · next h =>
            obtain ⟨rfl, rfl⟩ := h
            rw [List.length_cons] at hn
            rw [hdollar rfl] at ih ⊢
            rw [ih text.length (by omega) text rfl]
            rfl
          · rfl

theorem unescapeWord_quote : unescapeWord exec (value.flatMap (quoteUnit exec)) = value := by
  induction value with
  | nil => rfl
  | cons u value ih =>
      rw [List.flatMap_cons]
      rcases quoteUnit_cases exec u with ⟨c, hu, hc, hunescape⟩ | ⟨hu, hdouble⟩ |
        ⟨hu, -, hslash, hpercent, hdollar, -⟩
      · rw [hu, List.cons_append, List.cons_append, List.nil_append, unescapeWord_slash hc, ih,
          hunescape]
      · rw [hu, List.cons_append, List.cons_append, List.nil_append, unescapeWord_double hdouble,
          ih]
      · rw [hu, List.cons_append, List.nil_append, unescapeWord_plain _ hslash hpercent hdollar,
          ih]

theorem trimUnits_ne_nil (hmem : u ∈ text) (hu : isSpaceUnit u = false) : trimUnits text ≠ [] := by
  intro h
  have hdrop := List.reverse_eq_nil_iff.mp h
  rw [List.dropWhile_eq_nil_iff] at hdrop
  have hback : u ∈ (text.dropWhile isSpaceUnit).reverse := by
    rw [List.mem_reverse]
    rw [← List.takeWhile_append_dropWhile (p := isSpaceUnit) (l := text), List.mem_append] at hmem
    rcases hmem with hspace | hmem
    · rw [List.mem_takeWhile_imp hspace] at hu
      cases hu
    · exact hmem
  rw [hdrop u hback] at hu
  cases hu

/-- The first word of a text that begins with a quoted word, behind white space or none. -/
theorem unitWords_quote {before : JsString} (hbefore : ∀ u ∈ before, isSpaceUnit u = true)
    (rest : JsString) :
    unitWords (before ++ (quoteUnitWord value exec ++ rest)) exec =
      (unitWords rest exec).map (value :: ·) := by
  have hword : readWord (before ++ (quoteUnitWord value exec ++ rest)) =
      some (value.flatMap (quoteUnit exec), rest) := by
    rw [readWord, List.dropWhile_append_of_pos hbefore, quoteUnitWord, List.append_assoc,
      List.cons_append, List.dropWhile_cons, show isSpaceUnit quotationMark = false by decide]
    simp only [Bool.false_eq_true, if_false, if_true]
    exact readQuoted_quote rest
  have hblank : (trimUnits (before ++ (quoteUnitWord value exec ++ rest))).isEmpty = false := by
    rw [List.isEmpty_eq_false_iff]
    exact trimUnits_ne_nil (u := quotationMark) (by simp [quoteUnitWord]) (by decide)
  rw [unitWords, if_neg (by rw [hblank]; exact Bool.false_ne_true)]
  split
  · next hnone => rw [hword] at hnone; cases hnone
  · next raw behind hsome =>
    rw [hword] at hsome
    cases hsome
    rw [unescapeWord_quote]

theorem unitWords_nil : unitWords [] exec = some [] := by
  rw [unitWords, if_pos (by decide)]

/-- The words behind white space or none. -/
theorem unitWords_join {before : JsString} (hbefore : ∀ u ∈ before, isSpaceUnit u = true)
    (word : JsString) (words : List JsString) (exec : Bool) :
    unitWords (before ++ [space].intercalate ((word :: words).map (quoteUnitWord · exec))) exec =
      some (word :: words) := by
  induction words generalizing before word with
  | nil =>
      rw [List.map_singleton, List.intercalate_singleton,
        ← List.append_nil (quoteUnitWord word exec), unitWords_quote hbefore, unitWords_nil]
      rfl
  | cons next words ih =>
      have hspace : ∀ u ∈ [space], isSpaceUnit u = true := by
        intro u hu
        rw [List.mem_singleton.mp hu]
        decide
      rw [List.map_cons, List.map_cons, List.intercalate_cons_cons, List.append_assoc,
        unitWords_quote hbefore, ← List.map_cons (f := (quoteUnitWord · exec)), ih hspace]
      rfl

/-- Every list of words is read back as it was written. -/
theorem unitWords_quoteUnitWord (words : List JsString) (exec : Bool) :
    unitWords ([space].intercalate (words.map (quoteUnitWord · exec))) exec = some words := by
  cases words with
  | nil => exact unitWords_nil
  | cons word words =>
      have hnone : ∀ u ∈ ([] : JsString), isSpaceUnit u = true := by simp
      exact unitWords_join hnone word words exec

/-- No line ends inside a quoted word. -/
theorem lineFeed_notMem_quoteUnitWord (value : JsString) (exec : Bool) :
    lineFeed ∉ quoteUnitWord value exec := by
  have hunit : ∀ u, lineFeed ∉ quoteUnit exec u := by
    intro u hmem
    rcases quoteUnit_cases exec u with ⟨c, hu, hc, -⟩ | ⟨hu, hdouble⟩ | ⟨hu, -, -, -, -, hfeed⟩
    · rw [hu, List.mem_cons, List.mem_singleton] at hmem
      rcases hmem with heq | rfl
      · cases heq
      · cases hc
    · rw [hu, List.mem_cons, List.mem_singleton, or_self] at hmem
      subst hmem
      rcases hdouble with heq | ⟨heq, -⟩ <;> cases heq
    · rw [hu, List.mem_singleton] at hmem
      exact hfeed hmem.symm
  intro hmem
  rw [quoteUnitWord, List.cons_append, List.mem_cons, List.mem_append, List.mem_flatMap,
    List.mem_singleton] at hmem
  rcases hmem with heq | ⟨u, -, hu⟩ | heq
  · cases heq
  · exact hunit u hu
  · cases heq

/-! ## Lines are read back -/

/-- A line of a key and a value is read as these. -/
structure Plain (key value : JsString) : Prop where
  ne_nil : key ≠ []
  no_equals : equalsSign ∉ key
  first : ∀ u, key.head? = some u → u ≠ leftBracket ∧ u ≠ 0x23 ∧ u ≠ 0x3B
  key_trimmed : Trimmed key
  value_trimmed : Trimmed value

/-- The line `key=value`. -/
def assignment (key value : JsString) : JsString := key ++ equalsSign :: value

theorem trimmed_assignment {key value : JsString} (h : Plain key value) :
    Trimmed (assignment key value) := by
  constructor
  · intro u hu
    rw [assignment, List.head?_append_of_ne_nil _ h.ne_nil] at hu
    exact h.key_trimmed.1 u hu
  · intro u hu
    rw [assignment, List.getLast?_append_cons] at hu
    cases hvalue : value with
    | nil =>
        rw [hvalue] at hu
        cases hu
        decide
    | cons v rest =>
        rw [hvalue, List.getLast?_cons_cons, ← hvalue] at hu
        exact h.value_trimmed.2 u hu

theorem linesFrom_assignment {key value : JsString} (h : Plain key value)
    (sectionName : JsString) (rest : List JsString) :
    linesFrom sectionName (assignment key value :: rest) =
      ⟨sectionName, key, value⟩ :: linesFrom sectionName rest := by
  obtain ⟨u, more, hcons⟩ := List.exists_cons_of_ne_nil h.ne_nil
  obtain ⟨hbracket, hhash, hsemicolon⟩ := h.first u (by rw [hcons]; rfl)
  have htrim := trimUnits_of_trimmed (trimmed_assignment h)
  have hassignment : assignment key value = u :: (more ++ equalsSign :: value) := by
    rw [assignment, hcons, List.cons_append]
  have hskipped : isSkipped (assignment key value) = false := by
    rw [hassignment]
    simp [isSkipped, hhash, hsemicolon]
  have hheader : headerOf (assignment key value) = none := by
    rw [hassignment]
    simp [headerOf, hbracket]
  have hindex : (assignment key value).findIdx? (· == equalsSign) = some (more.length + 1) := by
    have hnone : key.findIdx? (· == equalsSign) = none := by
      rw [List.findIdx?_eq_none_iff]
      intro v hv
      exact beq_false_of_ne fun heq => h.no_equals (heq ▸ hv)
    rw [assignment, List.findIdx?_append, hnone, List.findIdx?_cons]
    simp [hcons]
  have hkey : (assignment key value).take (more.length + 1) = key := by
    rw [assignment]
    exact List.take_left' (by rw [hcons]; rfl)
  have hvalue : (assignment key value).drop (more.length + 2) = value := by
    rw [assignment, show more.length + 2 = key.length + 1 by rw [hcons]; rfl,
      List.drop_append]
    simp
  rw [linesFrom]
  simp only [htrim, hskipped, hheader, hindex, hkey, hvalue, trimUnits_of_trimmed h.key_trimmed,
    trimUnits_of_trimmed h.value_trimmed, Bool.false_eq_true, if_false]

end Stim.SystemdUnit
