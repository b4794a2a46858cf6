import Mathlib.Data.List.Basic

/-!
# Complete lines of a text

A text is cut after each separator: `complete` are the lines that one ended, without it, and
`rest` what follows the last one.  A reader that keeps the rest and reads on from it finds the
lines of the whole text.
-/

namespace Stim.Lines

variable {α : Type} [DecidableEq α] (sep : α)

def complete : List α → List (List α)
  | [] => []
  | x :: xs =>
      if x = sep then [] :: complete xs
      else match complete xs with
        | [] => []
        | line :: lines => (x :: line) :: lines

def rest : List α → List α
  | [] => []
  | x :: xs => if sep ∈ x :: xs then rest xs else x :: xs

variable {sep}

@[simp]
theorem complete_nil : complete sep [] = [] := rfl

@[simp]
theorem rest_nil : rest sep [] = [] := rfl

@[simp]
theorem complete_sep (xs : List α) : complete sep (sep :: xs) = [] :: complete sep xs := by
  simp [complete]

@[simp]
theorem rest_sep (xs : List α) : rest sep (sep :: xs) = rest sep xs := by
  simp [rest]

variable {xs : List α}

theorem complete_of_not_mem (h : sep ∉ xs) : complete sep xs = [] := by
  induction xs with
  | nil => rfl
  | cons x xs ih =>
      rw [List.mem_cons, not_or] at h
      simp [complete, Ne.symm h.1, ih h.2]

theorem rest_of_not_mem (h : sep ∉ xs) : rest sep xs = xs := by
  cases xs with
  | nil => rfl
  | cons x xs => simp [rest, h]

theorem not_mem_rest (xs : List α) : sep ∉ rest sep xs := by
  induction xs with
  | nil => simp
  | cons x xs ih =>
      unfold rest
      split_ifs with hmem
      · exact ih
      · exact hmem

/-- The first line of a text, which a separator ends. -/
theorem complete_line {line : List α} (h : sep ∉ line) (xs : List α) :
    complete sep (line ++ sep :: xs) = line :: complete sep xs := by
  induction line with
  | nil => simp
  | cons x line ih =>
      rw [List.mem_cons, not_or] at h
      simp [complete, Ne.symm h.1, ih h.2]

theorem rest_line (line xs : List α) : rest sep (line ++ sep :: xs) = rest sep xs := by
  induction line with
  | nil => simp
  | cons x line ih => simp [rest, ih]

/-- A text is a last line that no separator ended, or a line, its separator and a text. -/
theorem line_induction {P : List α → Prop} (last : ∀ xs, sep ∉ xs → P xs)
    (line : ∀ line ys, sep ∉ line → P ys → P (line ++ sep :: ys)) (xs : List α) : P xs := by
  by_cases h : sep ∈ xs
  · obtain ⟨first, ys, hxs, hfirst⟩ := List.eq_append_cons_of_mem h
    have hshort : ys.length < xs.length := by
      rw [hxs, List.length_append, List.length_cons]
      omega
    rw [hxs]
    exact line first ys hfirst (line_induction last line ys)
  · exact last xs h
termination_by xs.length

/-- A reader goes on from the rest of what it read. -/
theorem complete_append (xs ys : List α) :
    complete sep (xs ++ ys) = complete sep xs ++ complete sep (rest sep xs ++ ys) := by
  induction xs using @line_induction _ _ sep with
  | last xs h => rw [complete_of_not_mem h, rest_of_not_mem h, List.nil_append]
  | line line xs h ih =>
      rw [List.append_assoc, List.cons_append, complete_line h, complete_line h, rest_line, ih,
        List.cons_append]

theorem rest_append (xs ys : List α) : rest sep (xs ++ ys) = rest sep (rest sep xs ++ ys) := by
  induction xs using @line_induction _ _ sep with
  | last xs h => rw [rest_of_not_mem h]
  | line line xs h ih => rw [List.append_assoc, List.cons_append, rest_line, rest_line, ih]

/-- The text up to its last separator. -/
def through (sep : α) : List α → List α
  | [] => []
  | x :: xs => if sep ∈ x :: xs then x :: through sep xs else []

@[simp]
theorem through_nil : through sep [] = [] := rfl

theorem through_append_rest (xs : List α) : through sep xs ++ rest sep xs = xs := by
  induction xs with
  | nil => rfl
  | cons x xs ih =>
      unfold through rest
      split_ifs with hmem
      · rw [List.cons_append, ih]
      · rfl

theorem length_through_le (xs : List α) : (through sep xs).length ≤ xs.length := by
  have hsplit : (through sep xs ++ rest sep xs).length = xs.length := by rw [through_append_rest]
  rw [List.length_append] at hsplit
  omega

theorem through_of_not_mem (h : sep ∉ xs) : through sep xs = [] := by
  cases xs with
  | nil => rfl
  | cons x xs => simp [through, h]

theorem through_line (line xs : List α) :
    through sep (line ++ sep :: xs) = line ++ sep :: through sep xs := by
  induction line with
  | nil => simp [through]
  | cons x line ih => simp [through, ih]

theorem rest_through (xs : List α) : rest sep (through sep xs) = [] := by
  induction xs using @line_induction _ _ sep with
  | last xs h => rw [through_of_not_mem h, rest_nil]
  | line line xs _ ih => rw [through_line, rest_line, ih]

theorem complete_through (xs : List α) : complete sep (through sep xs) = complete sep xs := by
  have h : complete sep (through sep xs ++ rest sep xs) = _ := complete_append _ _
  rw [through_append_rest, rest_through, List.nil_append, complete_of_not_mem (not_mem_rest xs),
    List.append_nil] at h
  exact h.symm

theorem through_eq_self (h : rest sep xs = []) : through sep xs = xs := by
  have hall : through sep xs ++ rest sep xs = xs := through_append_rest xs
  rw [h, List.append_nil] at hall
  exact hall

/-- After complete lines, the text goes on with complete lines. -/
theorem through_append (h : rest sep xs = []) (ys : List α) :
    through sep (xs ++ ys) = xs ++ through sep ys := by
  have hboth : through sep (xs ++ ys) ++ rest sep (xs ++ ys) = xs ++ ys := through_append_rest _
  rw [rest_append, h, List.nil_append] at hboth
  have hsame : through sep (xs ++ ys) ++ rest sep ys = xs ++ through sep ys ++ rest sep ys := by
    rw [hboth, List.append_assoc, through_append_rest]
  exact List.append_cancel_right hsame

/-- The last separator of a text is that of its last part that has one. -/
theorem through_append_of_mem (xs : List α) {ys : List α} (h : sep ∈ ys) :
    through sep (xs ++ ys) = xs ++ through sep ys := by
  induction xs with
  | nil => rfl
  | cons x xs ih =>
      have hmem : sep ∈ x :: (xs ++ ys) :=
        List.mem_cons_of_mem x (List.mem_append_right xs h)
      rw [List.cons_append, through, if_pos hmem, ih, List.cons_append]

theorem mem_through (h : sep ∈ xs) : sep ∈ through sep xs := by
  have hsplit : through sep xs ++ rest sep xs = xs := through_append_rest xs
  rw [← hsplit] at h
  exact (List.mem_append.mp h).resolve_right (not_mem_rest xs)

/-- The first separator is not after the last one. -/
theorem idxOf_lt_length_through [BEq α] [LawfulBEq α] (h : sep ∈ xs) :
    xs.idxOf sep < (through sep xs).length := by
  have hsplit : through sep xs ++ rest sep xs = xs := through_append_rest xs
  rw [← hsplit, List.idxOf_append_of_mem (mem_through h), hsplit]
  exact List.idxOf_lt_length_of_mem (mem_through h)

/-- Text up to the end of a line leaves no rest. -/
theorem rest_eq_nil_iff (xs : List α) : rest sep xs = [] ↔ xs = [] ∨ xs.getLast? = some sep := by
  induction xs using @line_induction _ _ sep with
  | last xs h =>
      rw [rest_of_not_mem h]
      refine ⟨Or.inl, fun hor => hor.resolve_right fun hlast => ?_⟩
      exact h (List.mem_of_getLast? hlast)
  | line line xs _ ih =>
      rw [rest_line, ih]
      cases xs <;> simp

end Stim.Lines
