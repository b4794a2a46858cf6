import Mathlib.Data.List.Infix

/-!
# Regular expressions that replace

A pattern is matched as a backtracking matcher does it: `ends` lists the lengths it can take, the
preferred one first.  A `Rule` replaces the middle of each match and repeats its two ends, so that
a text it leaves out of a result stays out however often rules are applied.
-/

namespace Stim

universe u

inductive Regex (α : Type u) where
  | empty
  | one (p : α → Bool)
  /-- As many as there are, and fewer where the rest asks for it. -/
  | many (p : α → Bool) (least : Nat)
  | seq (a b : Regex α)
  | alt (a b : Regex α)
  /-- `\b`, for the units of a word -/
  | edge (p : α → Bool)

namespace Regex

variable {α : Type u}

/-- The lengths a pattern can take of `text`, which `before` leads up to backwards. -/
def ends : Regex α → List α → List α → List Nat
  | .empty, _, _ => [0]
  | .one p, _, text => if text.head?.any p then [1] else []
  | .many p least, _, text =>
      let most := (text.takeWhile p).length
      (List.range' least (most + 1 - least)).reverse
  | .seq a b, before, text =>
      (a.ends before text).flatMap fun n =>
        (b.ends ((text.take n).reverse ++ before) (text.drop n)).map (n + ·)
  | .alt a b, before, text => a.ends before text ++ b.ends before text
  | .edge p, before, text => if before.head?.any p != text.head?.any p then [0] else []

def opt (a : Regex α) : Regex α := .alt a .empty

def times (a : Regex α) : Nat → Regex α
  | 0 => .empty
  | n + 1 => .seq a (a.times n)

def literal (units : List (α → Bool)) : Regex α :=
  units.foldr (fun p rest => .seq (.one p) rest) .empty

/-- The word itself. -/
def word [DecidableEq α] (units : List α) : Regex α := literal (units.map fun c => (· == c))

def oneOf : List (Regex α) → Regex α
  | [] => .empty
  | [a] => a
  | a :: rest => .alt a (oneOf rest)

def allOf : List (Regex α) → Regex α
  | [] => .empty
  | [a] => a
  | a :: rest => .seq a (allOf rest)

/-- `test` of a pattern without anchors. -/
def testFrom (a : Regex α) (before : List α) : List α → Bool
  | [] => !(a.ends before []).isEmpty
  | c :: text => !(a.ends before (c :: text)).isEmpty || a.testFrom (c :: before) text

def test (a : Regex α) (text : List α) : Bool := a.testFrom [] text

/-- `test` of `^…$` -/
def testWhole (a : Regex α) (text : List α) : Bool := (a.ends [] text).contains text.length

/-- `exec` of `^(…)` with a tail: what the group takes of the text. -/
def group (a tail : Regex α) (text : List α) : Option (List α) :=
  ((a.ends [] text).find? fun n =>
    !(tail.ends (text.take n).reverse (text.drop n)).isEmpty).map text.take

/-! ## Rules -/

/-- The first part of a match and the last are repeated, and `put` stands between them. -/
structure Rule (α : Type u) where
  first : Regex α
  middle : Regex α
  last : Regex α
  put : List α

namespace Rule

/-- The lengths of the three parts of the preferred match. -/
def find (r : Rule α) (before text : List α) : Option (Nat × Nat × Nat) :=
  ((r.first.ends before text).flatMap fun n =>
    (r.middle.ends ((text.take n).reverse ++ before) (text.drop n)).flatMap fun m =>
      (r.last.ends ((text.take (n + m)).reverse ++ before) (text.drop (n + m))).map
        fun l => (n, m, l)).head?

/-- What a match of these lengths becomes. -/
def written (r : Rule α) (lengths : Nat × Nat × Nat) (text : List α) : List α :=
  text.take lengths.1 ++ r.put ++ (text.drop (lengths.1 + lengths.2.1)).take lengths.2.2

def total (lengths : Nat × Nat × Nat) : Nat := lengths.1 + lengths.2.1 + lengths.2.2

/-- The text with its matches replaced from left to right, when `skip` of its units belong to a
match that is replaced already. -/
def replaceFrom (r : Rule α) (skip : Nat) (before : List α) : List α → List α
  | [] => if skip = 0 ∧ (r.find before []).isSome then r.put else []
  | c :: text =>
      match skip with
      | skip + 1 => r.replaceFrom skip (c :: before) text
      | 0 =>
          match r.find before (c :: text) with
          | none => c :: r.replaceFrom 0 (c :: before) text
          | some lengths =>
              if total lengths = 0 then r.put ++ c :: r.replaceFrom 0 (c :: before) text
              else r.written lengths (c :: text) ++
                r.replaceFrom (total lengths - 1) (c :: before) text

/-- `replace` with the `g` flag. -/
def replaceAll (r : Rule α) (text : List α) : List α := r.replaceFrom 0 [] text

end Rule

/-- `text.split(value).join(put)`, for a value that is not empty. -/
def wordRule [DecidableEq α] (value put : List α) : Rule α where
  first := .empty
  middle := word value
  last := .empty
  put := put

/-! ## What a rule does not bring about -/

/-- A text that reaches across `put` would have to take in a unit that `value` lacks. -/
def Seals (put value : List α) : Prop :=
  ∃ first middle last, put = first :: (middle ++ [last]) ∧ first ∉ value ∧ last ∉ value ∧
    middle.length < value.length

theorem infix_append_cons {value left right : List α} {c : α} (hc : c ∉ value)
    (h : value <:+: left ++ c :: right) : value <:+: left ∨ value <:+: right := by
  obtain ⟨s, e, heq⟩ := h
  rw [List.append_assoc] at heq
  obtain ⟨more, hleft, hrest⟩ | ⟨more, hleft, hrest⟩ := List.append_eq_append_iff.mp heq
  · -- the value begins in `left`
    obtain ⟨rest, hvalue, hc'⟩ | ⟨rest, hmore, hrest'⟩ := List.append_eq_append_iff.mp hrest
    · exact Or.inl ⟨s, rest, by rw [hleft, hvalue, List.append_assoc]⟩
    · cases rest with
      | nil =>
          rw [List.append_nil] at hmore
          exact Or.inl ⟨s, [], by rw [hleft, hmore, List.append_nil]⟩
      | cons d rest =>
          rw [List.cons_append, List.cons.injEq] at hrest'
          rw [hmore] at hc
          exact absurd (by rw [hrest'.1]; simp) hc
  · -- the value begins behind `left`
    cases more with
    | nil =>
        rw [List.nil_append] at hrest
        cases hvalue : value with
        | nil => exact Or.inl ⟨[], left, by simp⟩
        | cons d rest =>
            rw [hvalue, List.cons_append, List.cons.injEq] at hrest
            rw [hvalue, hrest.1] at hc
            exact absurd List.mem_cons_self hc
    | cons d more =>
        rw [List.cons_append, List.cons.injEq] at hrest
        exact Or.inr ⟨more, e, by rw [List.append_assoc]; exact hrest.2.symm⟩

/-- What lies across a sealing text lies on one side of it. -/
theorem Seals.infix {put value left right : List α} (h : Seals put value)
    (hin : value <:+: left ++ put ++ right) : value <:+: left ∨ value <:+: right := by
  obtain ⟨first, middle, last, rfl, hfirst, hlast, hlength⟩ := h
  have hin' : value <:+: left ++ first :: (middle ++ last :: right) := by
    simpa using hin
  obtain hleft | hrest := infix_append_cons hfirst hin'
  · exact Or.inl hleft
  · obtain hmiddle | hright := infix_append_cons hlast hrest
    · have := hmiddle.length_le
      omega
    · exact Or.inr hright

variable {value : List α}

/-- `front` stands right before what is not yet replaced: the value occurs in neither of the two,
nor across them, so it does not come about. -/
theorem Rule.avoids_replaceFrom (r : Rule α) (hseals : Seals r.put value) (front text : List α)
    (skip : Nat) (before : List α) (h : ¬ value <:+: front ++ text.drop skip) :
    ¬ value <:+: front ++ r.replaceFrom skip before text := by
  have hne : value ≠ [] := by
    rintro rfl
    exact h (List.nil_infix)
  induction text generalizing front skip before with
  | nil =>
      rw [List.drop_nil, List.append_nil] at h
      rw [replaceFrom]
      split
      · intro hin
        rw [← List.append_nil (front ++ r.put)] at hin
        obtain hfront | hnil := hseals.infix hin
        · exact h hfront
        · exact hne (List.infix_nil.mp hnil)
      · rwa [List.append_nil]
  | cons c text ih =>
      cases skip with
      | succ skip =>
          rw [replaceFrom]
          exact ih front skip (c :: before) h
      | zero =>
          rw [List.drop_zero] at h
          have hfront : ¬ value <:+: front := fun hin =>
            h (hin.trans (List.prefix_append _ _).isInfix)
          have htext : ¬ value <:+: c :: text := fun hin =>
            h (hin.trans (List.suffix_append _ _).isInfix)
          simp only [replaceFrom]
          split
          · have hstep := ih (front ++ [c]) 0 (c :: before) (by
              rw [List.drop_zero, List.append_assoc]
              exact h)
            rwa [List.append_assoc] at hstep
          · next lengths _ =>
            split
            · intro hin
              rw [← List.append_assoc] at hin
              obtain hin | hin := hseals.infix hin
              · exact hfront hin
              · exact ih [c] 0 (c :: before) (by simpa using htext) hin
            · next htotal =>
              intro hin
              have hsplit : front ++ (r.written lengths (c :: text) ++
                  r.replaceFrom (total lengths - 1) (c :: before) text) =
                  (front ++ (c :: text).take lengths.1) ++ r.put ++
                    (((c :: text).drop (lengths.1 + lengths.2.1)).take lengths.2.2 ++
                      r.replaceFrom (total lengths - 1) (c :: before) text) := by
                simp [written]
              rw [hsplit] at hin
              obtain hin | hin := hseals.infix hin
              · -- what is repeated in front of the new text was there before
                apply h
                apply hin.trans
                apply List.IsPrefix.isInfix
                exact (List.prefix_append_right_inj front).mpr (List.take_prefix _ _)
              · -- what is repeated behind it leads up to what comes next
                apply ih _ _ _ _ hin
                intro hlast
                apply htext
                apply hlast.trans
                have hdrop : text.drop (total lengths - 1) =
                    ((c :: text).drop (lengths.1 + lengths.2.1)).drop lengths.2.2 := by
                  obtain ⟨n, hn⟩ := Nat.exists_eq_succ_of_ne_zero htotal
                  rw [List.drop_drop, hn,
                    show lengths.1 + lengths.2.1 + lengths.2.2 = n + 1 from hn]
                  rfl
                rw [hdrop, List.take_append_drop]
                exact (List.drop_suffix _ _).isInfix

/-- A value that a text lacks stays out of what a rule makes of it. -/
theorem Rule.avoids_replaceAll (r : Rule α) (hseals : Seals r.put value) {text : List α}
    (h : ¬ value <:+: text) : ¬ value <:+: r.replaceAll text := by
  have hfrom := r.avoids_replaceFrom hseals [] text 0 [] (by simpa using h)
  exact hfrom

/-! ## A word that is replaced everywhere -/

section Word

variable [DecidableEq α]

theorem ends_word (units before text : List α) :
    (word units).ends before text = if units.isPrefixOf text then [units.length] else [] := by
  induction units generalizing before text with
  | nil => rfl
  | cons c units ih =>
      rw [word, List.map_cons, literal, List.foldr_cons, ends]
      cases text with
      | nil => simp [ends]
      | cons d text =>
          by_cases hcd : d = c
          · subst hcd
            simp only [ends, List.head?_cons, Option.any_some, beq_self_eq_true, if_true]
            have hrest := ih ([d].reverse ++ before) text
            rw [word, literal] at hrest
            simp only [List.flatMap_cons, List.flatMap_nil, List.append_nil, List.take_succ_cons,
              List.take_zero, List.drop_succ_cons, List.drop_zero, hrest, List.isPrefixOf_cons_cons,
              beq_self_eq_true, Bool.true_and, List.length_cons]
            split
            · simp [Nat.add_comm]
            · rfl
          · have hdc : (d == c) = false := by simpa using hcd
            have hcd'' : c ≠ d := fun h => hcd h.symm
            simp [ends, hdc, hcd'']

theorem find_wordRule (value put before text : List α) :
    (wordRule value put).find before text =
      if value.isPrefixOf text then some (0, value.length, 0) else none := by
  simp only [Rule.find, wordRule, ends, List.flatMap_cons, List.flatMap_nil, List.append_nil,
    ends_word, List.drop_zero]
  split
  · simp
  · simp

/-- No occurrence of the value starts in `front`, so none is left. -/
theorem word_replaceFrom {put : List α} (hseals : Seals put value) (hne : value ≠ [])
    (front text : List α) (skip : Nat) (before : List α)
    (h : ∀ a b, front = a ++ b → b ≠ [] → ¬ value <+: b ++ text.drop skip) :
    ¬ value <:+: front ++ (wordRule value put).replaceFrom skip before text := by
  have hclean : ∀ {front rest : List α},
      (∀ a b, front = a ++ b → b ≠ [] → ¬ value <+: b ++ rest) → ¬ value <:+: front := by
    intro front rest h hin
    obtain ⟨a, e, rfl⟩ := hin
    apply h a (value ++ e) (List.append_assoc _ _ _) (by simp [hne])
    rw [List.append_assoc]
    exact List.prefix_append _ _
  induction text generalizing front skip before with
  | nil =>
      have hfront := hclean h
      rw [Rule.replaceFrom]
      split
      · next hfind =>
        rw [find_wordRule] at hfind
        cases value with
        | nil => exact absurd rfl hne
        | cons c value => simp at hfind
      · rwa [List.append_nil]
  | cons c text ih =>
      cases skip with
      | succ skip =>
          rw [Rule.replaceFrom]
          exact ih front skip (c :: before) h
      | zero =>
          rw [List.drop_zero] at h
          simp only [Rule.replaceFrom, find_wordRule]
          by_cases hhere : value.isPrefixOf (c :: text) = true
          · have htotal : Rule.total (0, value.length, 0) ≠ 0 := by
              simpa [Rule.total] using hne
            simp only [hhere, if_true, htotal, if_false, Rule.written, List.take_zero,
              List.nil_append, List.append_nil]
            intro hin
            rw [← List.append_assoc] at hin
            obtain hin | hin := hseals.infix hin
            · exact hclean h hin
            · apply ih [] _ _ _ hin
              intro a b hab hb
              exact absurd (List.append_eq_nil_iff.mp hab.symm).2 hb
          · simp only [hhere, Bool.false_eq_true, if_false]
            have hstep := ih (front ++ [c]) 0 (c :: before) (by
              intro a b hab hb hprefix
              rw [List.drop_zero] at hprefix
              obtain rfl | ⟨b, last, rfl⟩ := List.eq_nil_or_concat b
              · exact hb rfl
              · rw [List.concat_eq_append, ← List.append_assoc] at hab
                obtain ⟨hfront, hlast⟩ := List.append_inj' hab rfl
                rw [List.cons.injEq] at hlast
                rw [List.concat_eq_append, ← hlast.1, List.append_assoc] at hprefix
                by_cases hnil : b = []
                · subst hnil
                  exact hhere (List.isPrefixOf_iff_prefix.mpr hprefix)
                · exact h a b hfront hnil hprefix)
            rwa [List.append_assoc] at hstep

theorem avoids_word {put : List α} (hseals : Seals put value) (hne : value ≠ []) (text : List α) :
    ¬ value <:+: (wordRule value put).replaceAll text := by
  have hfrom := word_replaceFrom hseals hne [] text 0 [] (by
      intro a b hab hb
      exact absurd (List.append_eq_nil_iff.mp hab.symm).2 hb)
  exact hfrom

end Word

end Regex

end Stim
