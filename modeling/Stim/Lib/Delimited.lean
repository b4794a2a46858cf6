import Mathlib.Data.List.Infix

/-!
# Words between delimiters

A word occurs in a text where it stands between what may stand before it and what may stand behind
it.  `test` finds an occurrence and `replaceAll` replaces the occurrences from left to right, each
search going on behind the occurrence before, as a regular expression with lookarounds does.
-/

namespace Stim

universe u

/-- A word that is not empty.  `before` reads the text in front of it backwards. -/
structure Delimited (α : Type u) where
  word : List α
  before : List α → Bool
  behind : List α → Bool

namespace Delimited

variable {α : Type u} [DecidableEq α] (p : Delimited α)

/-- The word stands at the head of `text`, which `before` leads up to. -/
def here (before text : List α) : Bool :=
  p.word.isPrefixOf text && p.before before && p.behind (text.drop p.word.length)

def testFrom (before : List α) : List α → Bool
  | [] => p.here before []
  | c :: text => p.here before (c :: text) || testFrom (c :: before) text

def test (text : List α) : Bool := p.testFrom [] text

/-- The text with its occurrences replaced, when `skip` of its units belong to an occurrence that
is replaced already. -/
def replaceFrom (new : List α) (skip : Nat) (before : List α) : List α → List α
  | [] => []
  | c :: text =>
      match skip with
      | skip + 1 => replaceFrom new skip (c :: before) text
      | 0 =>
          if p.here before (c :: text) then
            new ++ replaceFrom new (p.word.length - 1) (c :: before) text
          else c :: replaceFrom new 0 (c :: before) text

def replaceAll (new text : List α) : List α := p.replaceFrom new 0 [] text

variable {p} {before text : List α}

theorem replaceFrom_of_not_testFrom (new : List α) (h : p.testFrom before text = false) :
    p.replaceFrom new 0 before text = text := by
  induction text generalizing before with
  | nil => rfl
  | cons c text ih =>
      rw [testFrom, Bool.or_eq_false_iff] at h
      simp only [replaceFrom, h.1]
      rw [ih h.2]
      rfl

/-- A text without an occurrence stays as it is. -/
theorem replaceAll_of_not_test (new : List α) (h : p.test text = false) :
    p.replaceAll new text = text :=
  replaceFrom_of_not_testFrom new h

theorem infix_of_testFrom (h : p.testFrom before text = true) : p.word <:+: text := by
  induction text generalizing before with
  | nil =>
      rw [testFrom, here, Bool.and_eq_true, Bool.and_eq_true] at h
      exact (List.isPrefixOf_iff_prefix.mp h.1.1).isInfix
  | cons c text ih =>
      rw [testFrom, Bool.or_eq_true] at h
      obtain h | h := h
      · rw [here, Bool.and_eq_true, Bool.and_eq_true] at h
        exact (List.isPrefixOf_iff_prefix.mp h.1.1).isInfix
      · exact (ih h).trans (List.infix_cons List.infix_rfl)

theorem infix_of_test (h : p.test text = true) : p.word <:+: text := infix_of_testFrom h

end Delimited

end Stim
