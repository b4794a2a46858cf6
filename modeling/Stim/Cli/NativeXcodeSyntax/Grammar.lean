import Mathlib.Data.List.Infix
import Stim.Cli.NativeXcodeSyntax

/-!
# The grammar of `project.pbxproj`

What stands between two tokens, the strings, and the texts that a tree can be written as.  The
reader passes what stands between tokens, and takes a string to its end and no further.
-/

namespace Stim.NativeXcodeSyntax

/-! ## Between the tokens -/

inductive Gap : JsString → Prop
  | nil : Gap []
  | space {c : UInt16} {rest : JsString} : Whitespace.isSpaceUnit c = true → Gap rest →
      Gap (c :: rest)
  | block {body rest : JsString} : ¬ [star, slash] <:+: body → Gap rest →
      Gap (slash :: star :: (body ++ star :: slash :: rest))
  | line {body rest : JsString} : newline ∉ body → Gap rest →
      Gap (slash :: slash :: (body ++ newline :: rest))

/-- What ends the source, where a comment may run to the end. -/
inductive EndGap : JsString → Prop
  | closed {gap : JsString} : Gap gap → EndGap gap
  | line {gap body : JsString} : Gap gap → newline ∉ body → EndGap (gap ++ slash :: slash :: body)

theorem Gap.append {gap more : JsString} (h : Gap gap) (hmore : Gap more) : Gap (gap ++ more) := by
  induction h with
  | nil => exact hmore
  | space hspace _ ih => exact .space hspace ih
  | block hbody _ ih =>
      simp only [List.cons_append, List.append_assoc]
      exact .block hbody ih
  | line hbody _ ih =>
      simp only [List.cons_append, List.append_assoc]
      exact .line hbody ih

variable {text : JsString}

theorem isPrefixOf_pair {a b : UInt16} :
    [a, b].isPrefixOf text = true ↔ ∃ rest, text = a :: b :: rest := by
  rw [List.isPrefixOf_iff_prefix]
  constructor
  · intro h
    obtain ⟨rest, hrest⟩ := h
    exact ⟨rest, hrest.symm⟩
  · intro h
    obtain ⟨rest, hrest⟩ := h
    exact ⟨rest, hrest.symm⟩

variable {body : JsString}

theorem behindComment_append (h : ¬ [star, slash] <:+: body) (rest : JsString) :
    behindComment (body ++ star :: slash :: rest) = some rest := by
  induction body with
  | nil => simp [behindComment]
  | cons c body ih =>
      have hbody : ¬ [star, slash] <:+: body := fun hin => h (List.infix_cons hin)
      have hhere : ¬ [star, slash].isPrefixOf (c :: (body ++ star :: slash :: rest)) = true := by
        intro hprefix
        obtain ⟨more, hmore⟩ := isPrefixOf_pair.mp hprefix
        rw [List.cons.injEq] at hmore
        cases body with
        | nil =>
            rw [List.nil_append, List.cons.injEq] at hmore
            exact absurd hmore.2.1 (by decide)
        | cons d body =>
            rw [List.cons_append, List.cons.injEq] at hmore
            apply h
            rw [hmore.1, hmore.2.1]
            exact List.IsPrefix.isInfix ⟨body, rfl⟩
      rw [List.cons_append, behindComment, if_neg hhere]
      exact ih hbody

theorem behindComment_eq_some {text rest : JsString} (h : behindComment text = some rest) :
    ∃ body, ¬ [star, slash] <:+: body ∧ text = body ++ star :: slash :: rest := by
  induction text with
  | nil => cases h
  | cons c text ih =>
      rw [behindComment] at h
      split at h
      · next hprefix =>
        obtain ⟨more, hmore⟩ := isPrefixOf_pair.mp hprefix
        rw [List.cons.injEq] at hmore
        rw [hmore.2] at h
        cases h
        exact ⟨[], by simp, by rw [hmore.1, hmore.2]; rfl⟩
      · next hprefix =>
        obtain ⟨body, hbody, rfl⟩ := ih h
        refine ⟨c :: body, ?_, rfl⟩
        intro hin
        obtain hhere | hlater := List.infix_cons_iff.mp hin
        · apply hprefix
          rw [List.isPrefixOf_iff_prefix]
          exact hhere.trans ⟨star :: slash :: rest, rfl⟩
        · exact hbody hlater

theorem behindLine_append (h : newline ∉ body) (rest : JsString) :
    behindLine (body ++ newline :: rest) = rest := by
  induction body with
  | nil => simp [behindLine]
  | cons c body ih =>
      rw [List.mem_cons, not_or] at h
      rw [List.cons_append, behindLine, if_neg (fun heq => h.1 heq.symm)]
      exact ih h.2

theorem behindLine_end (h : newline ∉ body) : behindLine body = [] := by
  induction body with
  | nil => rfl
  | cons c body ih =>
      rw [List.mem_cons, not_or] at h
      rw [behindLine, if_neg (fun heq => h.1 heq.symm)]
      exact ih h.2

theorem behindLine_cases (text : JsString) :
    (∃ body, newline ∉ body ∧ text = body ++ newline :: behindLine text) ∨
      newline ∉ text ∧ behindLine text = [] := by
  induction text with
  | nil => exact Or.inr ⟨by simp, rfl⟩
  | cons c text ih =>
      rw [behindLine]
      split
      · next heq => exact Or.inl ⟨[], by simp, by rw [heq]; rfl⟩
      · next hne =>
        obtain ⟨body, hbody, htext⟩ | ⟨hnone, hnil⟩ := ih
        · refine Or.inl ⟨c :: body, ?_, ?_⟩
          · simpa using ⟨fun heq => hne heq.symm, hbody⟩
          · rw [List.cons_append, ← htext]
        · refine Or.inr ⟨?_, hnil⟩
          simpa using ⟨fun heq => hne heq.symm, hnone⟩

/-- The reader stops at what neither space nor a comment starts. -/
structure Firm (text : JsString) : Prop where
  space : ∀ c, text.head? = some c → Whitespace.isSpaceUnit c = false
  block : ¬ [slash, star] <+: text
  line : ¬ [slash, slash] <+: text

variable {total : Nat}

theorem skip_firm (h : Firm text) : skip total text = .ok text := by
  cases text with
  | nil => rw [skip]
  | cons c rest =>
      have hblock : [slash, star].isPrefixOf (c :: rest) = false := by
        rw [← Bool.not_eq_true, List.isPrefixOf_iff_prefix]
        exact h.block
      have hline : [slash, slash].isPrefixOf (c :: rest) = false := by
        rw [← Bool.not_eq_true, List.isPrefixOf_iff_prefix]
        exact h.line
      rw [skip, h.space c rfl, hblock, hline]
      simp

theorem isSpaceUnit_slash : Whitespace.isSpaceUnit slash = false := by decide

theorem skip_block (h : ¬ [star, slash] <:+: body) (rest : JsString) :
    skip total (slash :: star :: (body ++ star :: slash :: rest)) = skip total rest := by
  rw [skip, isSpaceUnit_slash]
  have hhere : [slash, star].isPrefixOf (slash :: star :: (body ++ star :: slash :: rest)) = true :=
    isPrefixOf_pair.mpr ⟨_, rfl⟩
  have hbehind : behindComment (List.drop 1 (star :: (body ++ star :: slash :: rest))) =
      some rest := behindComment_append h rest
  rw [if_neg Bool.false_ne_true, if_pos hhere]
  split
  · next hnone =>
    rw [hbehind] at hnone
    cases hnone
  · next behind hsome =>
    rw [hbehind] at hsome
    cases hsome
    rfl

theorem skip_line (text : JsString) :
    skip total (slash :: slash :: text) = skip total (behindLine text) := by
  rw [skip, isSpaceUnit_slash]
  have hblock : [slash, star].isPrefixOf (slash :: slash :: text) = false := by
    rw [← Bool.not_eq_true, isPrefixOf_pair]
    intro h
    obtain ⟨rest, h⟩ := h
    rw [List.cons.injEq, List.cons.injEq] at h
    exact absurd h.2.1 (by decide)
  have hline : [slash, slash].isPrefixOf (slash :: slash :: text) = true := by
    simp
  rw [hblock, hline]
  simp

theorem skip_gap {gap : JsString} (h : Gap gap) (rest : JsString) :
    skip total (gap ++ rest) = skip total rest := by
  induction h with
  | nil => rfl
  | space hspace _ ih =>
      rw [List.cons_append, skip, hspace]
      exact ih
  | block hbody _ ih =>
      simp only [List.cons_append, List.append_assoc]
      rw [skip_block hbody]
      exact ih
  | line hbody _ ih =>
      simp only [List.cons_append, List.append_assoc]
      rw [skip_line, behindLine_append hbody]
      exact ih

theorem skip_endGap {gap : JsString} (h : EndGap gap) : skip total gap = .ok [] := by
  have hnil : skip total [] = .ok [] := by rw [skip]
  cases h with
  | closed hgap =>
      have hskip : skip total (_ ++ []) = skip total [] := skip_gap hgap []
      rwa [List.append_nil, hnil] at hskip
  | line hgap hbody => rw [skip_gap hgap, skip_line, behindLine_end hbody, hnil]

/-- What the reader passes, and where it stops. -/
theorem skip_eq_ok {text rest : JsString} (h : skip total text = .ok rest) :
    (∃ gap, Gap gap ∧ text = gap ++ rest ∧ Firm rest) ∨ EndGap text ∧ rest = [] := by
  induction text using skip.induct with
  | case1 =>
      rw [skip] at h
      cases h
      exact Or.inr ⟨.closed .nil, rfl⟩
  | case2 c text hspace ih =>
      rw [skip, if_pos hspace] at h
      obtain ⟨gap, hgap, rfl, hfirm⟩ | ⟨hend, hnil⟩ := ih h
      · exact Or.inl ⟨c :: gap, .space hspace hgap, rfl, hfirm⟩
      · refine Or.inr ⟨?_, hnil⟩
        cases hend with
        | closed hgap => exact .closed (.space hspace hgap)
        | line hgap hbody => exact .line (.space hspace hgap) hbody
  | case3 c text hspace hblock hnone =>
      rw [skip, if_neg hspace, if_pos hblock] at h
      split at h
      · cases h
      · next hsome =>
        rw [hnone] at hsome
        cases hsome
  | case4 c text hspace hblock behind hsome ih =>
      rw [skip, if_neg hspace, if_pos hblock] at h
      split at h
      · cases h
      · next behind' hsome' =>
        rw [hsome] at hsome'
        cases hsome'
        obtain ⟨body, hbody, hdrop⟩ := behindComment_eq_some hsome
        obtain ⟨more, hmore⟩ := isPrefixOf_pair.mp hblock
        rw [List.cons.injEq] at hmore
        obtain ⟨rfl, rfl⟩ := hmore
        have hmore : more = body ++ star :: slash :: behind := hdrop
        subst hmore
        obtain ⟨gap, hgap, rfl, hfirm⟩ | ⟨hend, hnil⟩ := ih h
        · refine Or.inl ⟨slash :: star :: (body ++ star :: slash :: gap), .block hbody hgap, ?_,
            hfirm⟩
          simp
        · refine Or.inr ⟨?_, hnil⟩
          cases hend with
          | closed hgap => exact .closed (.block hbody hgap)
          | @line gap open_ hgap hopen =>
              have hline := EndGap.line (.block hbody hgap) hopen
              simpa using hline
  | case5 c text hspace hblock hline ih =>
      rw [skip, if_neg hspace, if_neg hblock, if_pos hline] at h
      obtain ⟨more, hmore⟩ := isPrefixOf_pair.mp hline
      rw [List.cons.injEq] at hmore
      obtain ⟨rfl, rfl⟩ := hmore
      change skip total (behindLine more) = .ok rest at h
      replace ih : skip total (behindLine more) = .ok rest →
          (∃ gap, Gap gap ∧ behindLine more = gap ++ rest ∧ Firm rest) ∨
            EndGap (behindLine more) ∧ rest = [] := ih
      obtain ⟨body, hbody, hmore⟩ | ⟨hnone, hnil⟩ := behindLine_cases more
      · generalize behindLine more = behind at *
        subst hmore
        obtain ⟨gap, hgap, rfl, hfirm⟩ | ⟨hend, hnil⟩ := ih h
        · refine Or.inl ⟨slash :: slash :: (body ++ newline :: gap), .line hbody hgap, ?_, hfirm⟩
          simp
        · refine Or.inr ⟨?_, hnil⟩
          cases hend with
          | closed hgap => exact .closed (.line hbody hgap)
          | @line gap open_ hgap hopen =>
              have hline := EndGap.line (.line hbody hgap) hopen
              simpa using hline
      · rw [hnil, skip] at h
        cases h
        exact Or.inr ⟨.line .nil hnone, rfl⟩
  | case6 c text hspace hblock hline =>
      rw [skip, if_neg hspace, if_neg hblock, if_neg hline] at h
      cases h
      refine Or.inl ⟨[], .nil, rfl, ?_, ?_, ?_⟩
      · intro d hd
        cases hd
        simpa using hspace
      · rwa [← List.isPrefixOf_iff_prefix]
      · rwa [← List.isPrefixOf_iff_prefix]

/-! ## Quoted strings -/

/-- What stands between the quotes of a string: a backslash takes the next unit with it. -/
inductive Quotable : JsString → Prop
  | nil : Quotable []
  | unit {c : UInt16} {rest : JsString} : c ≠ quote → c ≠ backslash → Quotable rest →
      Quotable (c :: rest)
  | escaped {c : UInt16} {rest : JsString} : Quotable rest → Quotable (backslash :: c :: rest)

inductive Quoted : JsString → Prop
  | intro {body : JsString} : Quotable body → Quoted (quote :: (body ++ [quote]))

theorem quotedLength_append (h : Quotable body) (rest : JsString) :
    quotedLength (body ++ quote :: rest) = .ok (body.length + 1) := by
  induction h with
  | nil =>
      cases rest with
      | nil => simp [quotedLength]
      | cons d rest => simp [quotedLength]
  | @unit c body hquote hbackslash _ ih =>
      cases body with
      | nil =>
          rw [List.nil_append] at ih
          simp [quotedLength, hquote, hbackslash, ih, Except.map]
      | cons d body =>
          rw [List.cons_append] at ih
          simp [quotedLength, hquote, hbackslash, ih, Except.map]
  | @escaped c body _ ih =>
      have hquote : backslash ≠ quote := by decide
      simp [quotedLength, hquote, ih, Except.map]

theorem quotedLength_eq_ok {length : Nat} (h : quotedLength text = .ok length) :
    ∃ body rest, Quotable body ∧ text = body ++ quote :: rest ∧ length = body.length + 1 := by
  induction text using quotedLength.induct generalizing length with
  | case1 => cases h
  | case2 =>
      cases h
      exact ⟨[], [], .nil, rfl, rfl⟩
  | case3 c hquote =>
      rw [quotedLength, if_neg hquote] at h
      cases h
  | case4 d rest =>
      rw [quotedLength, if_pos rfl] at h
      cases h
      exact ⟨[], d :: rest, .nil, rfl, rfl⟩
  | case5 d rest hquote ih =>
      rw [quotedLength, if_neg hquote, if_pos rfl] at h
      cases hrest : quotedLength rest with
      | error beyond =>
          rw [hrest] at h
          cases h
      | ok inner =>
          rw [hrest] at h
          cases h
          obtain ⟨body, left, hbody, rfl, rfl⟩ := ih hrest
          exact ⟨backslash :: d :: body, left, .escaped hbody, rfl, rfl⟩
  | case6 c d rest hquote hbackslash ih =>
      rw [quotedLength, if_neg hquote, if_neg hbackslash] at h
      cases hrest : quotedLength (d :: rest) with
      | error beyond =>
          rw [hrest] at h
          cases h
      | ok inner =>
          rw [hrest] at h
          cases h
          obtain ⟨body, left, hbody, heq, rfl⟩ := ih hrest
          exact ⟨c :: body, left, .unit hquote hbackslash hbody, by rw [heq]; rfl, rfl⟩

theorem quotedLength_beyond {beyond : Nat} (h : quotedLength text = .error beyond) :
    beyond ≤ 1 := by
  induction text using quotedLength.induct with
  | case1 =>
      cases h
      omega
  | case2 => cases h
  | case3 c hquote =>
      rw [quotedLength, if_neg hquote] at h
      cases h
      split <;> omega
  | case4 d rest =>
      rw [quotedLength, if_pos rfl] at h
      cases h
  | case5 d rest hquote ih =>
      rw [quotedLength, if_neg hquote, if_pos rfl] at h
      cases hrest : quotedLength rest with
      | error inner =>
          rw [hrest] at h
          cases h
          exact ih hrest
      | ok inner =>
          rw [hrest] at h
          cases h
  | case6 c d rest hquote hbackslash ih =>
      rw [quotedLength, if_neg hquote, if_neg hbackslash] at h
      cases hrest : quotedLength (d :: rest) with
      | error inner =>
          rw [hrest] at h
          cases h
          exact ih hrest
      | ok inner =>
          rw [hrest] at h
          cases h

/-! ## Literals -/

/-- What stands between the brackets of a group: its own brackets match. -/
inductive Nested : JsString → Prop
  | nil : Nested []
  | unit {c : UInt16} {rest : JsString} : c ≠ openParen → c ≠ closeParen → Nested rest →
      Nested (c :: rest)
  | group {inner rest : JsString} : Nested inner → Nested rest →
      Nested (openParen :: (inner ++ closeParen :: rest))

/-- No unit ends the literal but those inside its groups `$(…)`. -/
inductive Word : JsString → Prop
  | nil : Word []
  | unit {c : UInt16} {rest : JsString} : isLiteralEnd c = false → Word rest → Word (c :: rest)
  | group {inner rest : JsString} : Nested inner → Word rest →
      Word (dollar :: openParen :: (inner ++ closeParen :: rest))

/-- A text that leaves the bracket before it open. -/
def Unclosed (text : JsString) : Prop :=
  ¬ ∃ inner rest, Nested inner ∧ text = inner ++ closeParen :: rest

/-- A literal the last group of which stays open. -/
inductive OpenWord : JsString → Prop
  | unit {c : UInt16} {rest : JsString} : isLiteralEnd c = false → OpenWord rest →
      OpenWord (c :: rest)
  | group {inner rest : JsString} : Nested inner → OpenWord rest →
      OpenWord (dollar :: openParen :: (inner ++ closeParen :: rest))
  | unclosed {rest : JsString} : Unclosed rest → OpenWord (dollar :: openParen :: rest)

theorem groupLength_append {inner : JsString} (h : Nested inner) (depth : Nat) (rest : JsString) :
    groupLength (depth + 1) (inner ++ closeParen :: rest) =
      inner.length + 1 + if depth = 0 then 0 else groupLength depth rest := by
  have hclose : closeParen ≠ openParen := by decide
  induction h generalizing depth rest with
  | nil =>
      simp only [List.nil_append, groupLength, hclose, if_false, if_true, Nat.add_sub_cancel]
      split
      · simp
      · simp only [List.length_nil]
        omega
  | unit hopen hunit _ ih =>
      simp only [List.cons_append, groupLength, hopen, hunit, if_false, ih, List.length_cons]
      simp only [Nat.add_eq_zero_iff, one_ne_zero, and_false, if_false]
      omega
  | @group inner more _ _ ihinner ihmore =>
      have houter : groupLength (depth + 1) (openParen :: (inner ++ closeParen :: more) ++
          closeParen :: rest) =
          groupLength (depth + 2) (inner ++ closeParen :: (more ++ closeParen :: rest)) + 1 := by
        simp [groupLength]
      rw [houter, ihinner (depth + 1), if_neg (by omega), ihmore depth rest]
      simp only [List.length_cons, List.length_append]
      omega

/-- A group without its last bracket runs to the end. -/
theorem groupLength_unclosed (text : JsString) (h : Unclosed text) (depth : Nat) :
    groupLength (depth + 1) text = text.length := by
  cases text with
  | nil => rfl
  | cons c rest =>
      by_cases hclose : c = closeParen
      · exact absurd ⟨[], rest, .nil, by rw [hclose]; rfl⟩ h
      · by_cases hopen : c = openParen
        · subst hopen
          have houter : groupLength (depth + 1) (openParen :: rest) =
              groupLength (depth + 2) rest + 1 := by
            simp [groupLength]
          rw [houter, List.length_cons]
          by_cases hrest : Unclosed rest
          · rw [groupLength_unclosed rest hrest]
          · -- the inner bracket is closed, so what follows leaves the outer one open
            obtain ⟨inner, more, hinner, hmore⟩ := not_not.mp hrest
            have hunclosed : Unclosed more := by
              intro hclosed
              obtain ⟨next, last, hnext, rfl⟩ := hclosed
              exact h ⟨openParen :: (inner ++ closeParen :: next), last, .group hinner hnext,
                by simp [hmore]⟩
            have hshort : more.length < rest.length := by
              rw [hmore, List.length_append, List.length_cons]
              omega
            rw [hmore, groupLength_append hinner (depth + 1), if_neg (by omega),
              groupLength_unclosed more hunclosed]
            simp only [List.length_append, List.length_cons]
            omega
        · have hrest : Unclosed rest := by
            intro hclosed
            obtain ⟨inner, more, hinner, rfl⟩ := hclosed
            exact h ⟨c :: inner, more, .unit hopen hclose hinner, rfl⟩
          rw [groupLength, if_neg hopen, if_neg hclose, if_neg (by omega),
            groupLength_unclosed rest hrest]
          rfl
termination_by text.length

theorem literalLength_skip (grouped : Nat) (text : JsString) (h : grouped ≤ text.length) :
    literalLength grouped text = grouped + literalLength 0 (text.drop grouped) := by
  induction text generalizing grouped with
  | nil =>
      have hzero : grouped = 0 := by simpa using h
      subst hzero
      simp
  | cons c rest ih =>
      cases grouped with
      | zero => simp
      | succ grouped =>
          rw [literalLength, ih grouped (by simpa using h), List.drop_succ_cons]
          omega

/-- A whole group of a literal. -/
theorem literalLength_group {inner : JsString} (h : Nested inner) (rest : JsString) :
    literalLength 0 (dollar :: openParen :: (inner ++ closeParen :: rest)) =
      inner.length + 3 + literalLength 0 rest := by
  have hgroup : groupLength 0 (openParen :: (inner ++ closeParen :: rest)) = inner.length + 2 := by
    have hinner := groupLength_append h 0 rest
    have houter : groupLength 0 (openParen :: (inner ++ closeParen :: rest)) =
        groupLength 1 (inner ++ closeParen :: rest) + 1 := by
      simp [groupLength]
    rw [houter, hinner, if_pos rfl]
  have hend : isLiteralEnd dollar = false := by decide
  have hprefix : [dollar, openParen].isPrefixOf
      (dollar :: openParen :: (inner ++ closeParen :: rest)) = true := isPrefixOf_pair.mpr ⟨_, rfl⟩
  rw [literalLength, hend]
  simp only [Bool.false_eq_true, if_false]
  rw [if_pos hprefix, hgroup, literalLength_skip _ _ (by simp)]
  have hdrop : (openParen :: (inner ++ closeParen :: rest)).drop (inner.length + 2) = rest := by
    rw [List.drop_succ_cons, List.drop_append, List.drop_of_length_le (by omega)]
    simp
  rw [hdrop]
  omega

variable {rest : JsString}

/-- A group that stays open. -/
theorem literalLength_unclosed (h : Unclosed rest) :
    literalLength 0 (dollar :: openParen :: rest) = rest.length + 2 := by
  have hgroup : groupLength 0 (openParen :: rest) = rest.length + 1 := by
    have houter : groupLength 0 (openParen :: rest) = groupLength 1 rest + 1 := by
      simp [groupLength]
    rw [houter, groupLength_unclosed rest h]
  have hend : isLiteralEnd dollar = false := by decide
  have hprefix : [dollar, openParen].isPrefixOf (dollar :: openParen :: rest) = true :=
    isPrefixOf_pair.mpr ⟨_, rfl⟩
  rw [literalLength, hend]
  simp only [Bool.false_eq_true, if_false]
  rw [if_pos hprefix, hgroup, literalLength_skip _ _ (by simp)]
  simp [literalLength]

/-- What may follow a literal. -/
def Stops (rest : JsString) : Prop :=
  ∀ c, rest.head? = some c → isLiteralEnd c = true ∧ c ≠ openParen

theorem literalLength_unit {c : UInt16} (hend : isLiteralEnd c = false)
    (hgroup : c = dollar → rest.head? ≠ some openParen) :
    literalLength 0 (c :: rest) = literalLength 0 rest + 1 := by
  have hprefix : ¬ [dollar, openParen].isPrefixOf (c :: rest) = true := by
    intro hprefix
    obtain ⟨more, hmore⟩ := isPrefixOf_pair.mp hprefix
    rw [List.cons.injEq] at hmore
    exact hgroup hmore.1 (by rw [hmore.2]; rfl)
  rw [literalLength, hend]
  simp only [Bool.false_eq_true, if_false]
  rw [if_neg hprefix]

variable {word : JsString}

/-- No literal starts with what ends one. -/
theorem Word.head (h : Word word) {c : UInt16} (hc : word.head? = some c) :
    isLiteralEnd c = false := by
  cases h with
  | nil => cases hc
  | unit hend _ =>
      cases hc
      exact hend
  | group _ _ =>
      cases hc
      decide

theorem OpenWord.head (h : OpenWord word) {c : UInt16} (hc : word.head? = some c) :
    isLiteralEnd c = false := by
  cases h with
  | unit hend _ =>
      cases hc
      exact hend
  | group _ _ =>
      cases hc
      decide
  | unclosed _ =>
      cases hc
      decide

theorem isLiteralEnd_openParen : isLiteralEnd openParen = true := by decide

theorem literalLength_word (h : Word word) (hstops : Stops rest) :
    literalLength 0 (word ++ rest) = word.length := by
  induction h with
  | nil =>
      cases rest with
      | nil => rfl
      | cons c rest =>
          rw [List.nil_append, literalLength, (hstops c rfl).1]
          rfl
  | @unit c word hend hword ih =>
      have hgroup : (word ++ rest).head? ≠ some openParen := by
        cases word with
        | nil =>
            intro heq
            exact (hstops openParen heq).2 rfl
        | cons d word =>
            intro heq
            rw [List.cons_append, List.head?_cons, Option.some.injEq] at heq
            have hd := hword.head (List.head?_cons ..)
            rw [heq, isLiteralEnd_openParen] at hd
            cases hd
      rw [List.cons_append, literalLength_unit hend fun _ => hgroup, ih, List.length_cons]
  | @group inner word hinner _ ih =>
      have hassoc : dollar :: openParen :: (inner ++ closeParen :: word) ++ rest =
          dollar :: openParen :: (inner ++ closeParen :: (word ++ rest)) := by
        simp
      rw [hassoc, literalLength_group hinner, ih]
      simp only [List.length_cons, List.length_append]
      omega

theorem literalLength_openWord (h : OpenWord word) : literalLength 0 word = word.length := by
  induction h with
  | @unit c word hend hword ih =>
      have hgroup : word.head? ≠ some openParen := by
        intro heq
        have hopen := hword.head heq
        rw [isLiteralEnd_openParen] at hopen
        cases hopen
      rw [literalLength_unit hend fun _ => hgroup, ih, List.length_cons]
  | @group inner word hinner _ ih =>
      rw [literalLength_group hinner, ih]
      simp only [List.length_cons, List.length_append]
      omega
  | unclosed hrest => rw [literalLength_unclosed hrest]; rfl

/-- The literal that a text starts with. -/
theorem literalLength_spec (text : JsString) :
    ∃ word rest, text = word ++ rest ∧ literalLength 0 text = word.length ∧
      ((Word word ∧ ∀ c, rest.head? = some c → isLiteralEnd c = true) ∨
        OpenWord word ∧ rest = []) := by
  cases text with
  | nil => exact ⟨[], [], rfl, rfl, Or.inl ⟨.nil, by simp⟩⟩
  | cons c rest =>
      by_cases hend : isLiteralEnd c = true
      · refine ⟨[], c :: rest, rfl, ?_, Or.inl ⟨.nil, ?_⟩⟩
        · rw [literalLength, if_pos hend]
          rfl
        · intro d hd
          cases hd
          exact hend
      · have hend : isLiteralEnd c = false := by simpa using hend
        by_cases hgroup : c = dollar ∧ rest.head? = some openParen
        · obtain ⟨rfl, hhead⟩ := hgroup
          obtain ⟨more, rfl⟩ : ∃ more, rest = openParen :: more :=
            ⟨rest.tail, (List.cons_head?_tail hhead).symm⟩
          by_cases hclosed : Unclosed more
          · exact ⟨dollar :: openParen :: more, [], by simp,
              literalLength_unclosed hclosed, Or.inr ⟨.unclosed hclosed, rfl⟩⟩
          · obtain ⟨inner, left, hinner, rfl⟩ := not_not.mp hclosed
            have hshort : left.length < (dollar :: openParen :: (inner ++ closeParen :: left)).length := by
              simp only [List.length_cons, List.length_append]
              omega
            obtain ⟨word, rest, hleft, hlength, hcases⟩ := literalLength_spec left
            refine ⟨dollar :: openParen :: (inner ++ closeParen :: word), rest, ?_, ?_, ?_⟩
            · simp [hleft]
            · rw [literalLength_group hinner, hlength]
              simp only [List.length_cons, List.length_append]
              omega
            · obtain ⟨hword, hstop⟩ | ⟨hword, hnil⟩ := hcases
              · exact Or.inl ⟨.group hinner hword, hstop⟩
              · exact Or.inr ⟨.group hinner hword, hnil⟩
        · obtain ⟨word, left, hrest, hlength, hcases⟩ := literalLength_spec rest
          refine ⟨c :: word, left, ?_, ?_, ?_⟩
          · rw [hrest]
            rfl
          · rw [literalLength_unit hend fun hc hhead => hgroup ⟨hc, hhead⟩, hlength,
              List.length_cons]
          · obtain ⟨hword, hstop⟩ | ⟨hword, hnil⟩ := hcases
            · exact Or.inl ⟨.unit hend hword, hstop⟩
            · exact Or.inr ⟨.unit hend hword, hnil⟩
termination_by text.length

/-! ## Strings -/

/-- A string without quotes: one that starts neither a quoted string nor a comment. -/
structure Bare (written : JsString) : Prop where
  word : Word written
  ne_nil : written ≠ []
  quote : written.head? ≠ some quote
  block : ¬ [slash, star] <+: written
  line : ¬ [slash, slash] <+: written

structure OpenBare (written : JsString) : Prop where
  word : OpenWord written
  quote : written.head? ≠ some quote
  block : ¬ [slash, star] <+: written
  line : ¬ [slash, slash] <+: written

theorem string_quoted {written : JsString} (h : Quoted written) (rest : JsString) :
    string total (written ++ rest) = .ok (written, rest) := by
  obtain ⟨hbody⟩ := h
  rename_i body
  have htext : quote :: (body ++ [quote]) ++ rest = quote :: (body ++ quote :: rest) := by simp
  have htake : (body ++ quote :: rest).take (body.length + 1) = body ++ [quote] := by
    rw [show body ++ quote :: rest = body ++ [quote] ++ rest by simp, List.take_left' (by simp)]
  rw [htext, string, if_pos (List.head?_cons ..), List.tail_cons, quotedLength_append hbody]
  simp [htake]

theorem string_bare {written rest : JsString} (h : Bare written) (hstops : Stops rest) :
    string total (written ++ rest) = .ok (written, rest) := by
  have hlength := literalLength_word h.word hstops
  have hquote : (written ++ rest).head? ≠ some quote := by
    rw [List.head?_append_of_ne_nil _ h.ne_nil]
    exact h.quote
  have hzero : written.length ≠ 0 := by simpa using h.ne_nil
  rw [string, if_neg hquote, hlength, if_neg hzero]
  simp

theorem string_openBare {written : JsString} (h : OpenBare written) :
    string total written = .ok (written, []) := by
  have hlength := literalLength_openWord h.word
  have hzero : written.length ≠ 0 := by
    cases h.word <;> simp
  rw [string, if_neg h.quote, hlength, if_neg hzero]
  simp

/-- The string that the reader takes where it stands at no space and no comment. -/
theorem string_eq_ok {text written rest : JsString} (hfirm : Firm text)
    (h : string total text = .ok (written, rest)) :
    text = written ++ rest ∧
      (Quoted written ∨
        (Bare written ∧ ∀ c, rest.head? = some c → isLiteralEnd c = true) ∨
        OpenBare written ∧ rest = []) := by
  rw [string] at h
  split at h
  · next hhead =>
    split at h
    · next length hlength =>
      cases h
      obtain ⟨body, left, hbody, htail, rfl⟩ := quotedLength_eq_ok hlength
      refine ⟨(List.take_append_drop _ _).symm, Or.inl ?_⟩
      have htext : text = quote :: (body ++ [quote]) ++ left := by
        rw [← List.cons_head?_tail hhead, htail]
        simp
      have htake : text.take (body.length + 1 + 1) = quote :: (body ++ [quote]) := by
        rw [htext, List.take_left' (by simp)]
      rw [htake]
      exact .intro hbody
    · cases h
  · next hhead =>
    split at h
    · cases h
    · next hne =>
      cases h
      obtain ⟨word, left, htext, hlength, hcases⟩ := literalLength_spec text
      have htake : text.take (literalLength 0 text) = word := by
        rw [hlength, htext, List.take_left]
      have hdrop : text.drop (literalLength 0 text) = left := by
        rw [hlength, htext, List.drop_left]
      rw [htake, hdrop]
      refine ⟨htext, Or.inr ?_⟩
      have hnil : word ≠ [] := by
        rintro rfl
        exact hne hlength
      have hquote : word.head? ≠ some quote := by
        rwa [htext, List.head?_append_of_ne_nil _ hnil] at hhead
      have hprefix : word <+: text := ⟨left, htext.symm⟩
      obtain ⟨hword, hstop⟩ | ⟨hword, hleft⟩ := hcases
      · exact Or.inl ⟨⟨hword, hnil, hquote, fun hp => hfirm.block (hp.trans hprefix),
          fun hp => hfirm.line (hp.trans hprefix)⟩, hstop⟩
      · exact Or.inr ⟨⟨hword, hquote, fun hp => hfirm.block (hp.trans hprefix),
          fun hp => hfirm.line (hp.trans hprefix)⟩, hleft⟩

end Stim.NativeXcodeSyntax
