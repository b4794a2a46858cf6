import Stim.Lib.JsString

/-!
# White space

The characters that JavaScript's `trim` removes and `\s` matches.
-/

namespace Stim.Whitespace

def isSpace (c : Char) : Bool :=
  [9, 10, 11, 12, 13, 32, 160, 0x1680, 0x2028, 0x2029, 0x202F, 0x205F, 0x3000, 0xFEFF].contains
    c.toNat || (0x2000 ≤ c.toNat && c.toNat ≤ 0x200A)

def trim (text : List Char) : List Char :=
  ((text.dropWhile isSpace).reverse.dropWhile isSpace).reverse

/-! ## Code units -/

def isSpaceUnit (u : UInt16) : Bool :=
  [9, 10, 11, 12, 13, 32, 160, 0x1680, 0x2028, 0x2029, 0x202F, 0x205F, 0x3000, 0xFEFF].contains
    u.toNat || (0x2000 ≤ u.toNat && u.toNat ≤ 0x200A)

def trimUnits (text : JsString) : JsString :=
  ((text.dropWhile isSpaceUnit).reverse.dropWhile isSpaceUnit).reverse

/-- A text that has no white space at its ends. -/
def Trimmed (text : JsString) : Prop :=
  (∀ u, text.head? = some u → isSpaceUnit u = false) ∧
    ∀ u, text.getLast? = some u → isSpaceUnit u = false

theorem trimmed_nil : Trimmed [] := by
  constructor
  · intro u hu
    cases hu
  · intro u hu
    cases hu

def isTrimmed (text : JsString) : Bool :=
  text.head?.all (!isSpaceUnit ·) && text.getLast?.all (!isSpaceUnit ·)

variable {text : JsString}

theorem trimmed_of_isTrimmed (h : isTrimmed text = true) : Trimmed text := by
  rw [isTrimmed, Bool.and_eq_true] at h
  constructor
  · intro u hu
    have := h.1
    rw [hu] at this
    simpa using this
  · intro u hu
    have := h.2
    rw [hu] at this
    simpa using this

/-- A text that ends with no white space, behind one that has none at its ends. -/
theorem trimmed_append {front back : JsString} (hfront : Trimmed front) (hne : front ≠ [])
    (hback : ∀ u, back.getLast? = some u → isSpaceUnit u = false) : Trimmed (front ++ back) := by
  constructor
  · intro u hu
    rw [List.head?_append_of_ne_nil _ hne] at hu
    exact hfront.1 u hu
  · intro u hu
    rw [List.getLast?_append] at hu
    cases hcase : back.getLast? with
    | none =>
        rw [hcase, Option.none_or] at hu
        exact hfront.2 u hu
    | some v =>
        rw [hcase, Option.some_or] at hu
        cases hu
        exact hback u hcase

theorem dropWhile_of_head (h : ∀ u, text.head? = some u → isSpaceUnit u = false) :
    text.dropWhile isSpaceUnit = text := by
  cases text with
  | nil => rfl
  | cons u rest => rw [List.dropWhile_cons, h u rfl]; rfl

theorem trimUnits_of_trimmed (h : Trimmed text) : trimUnits text = text := by
  have hlast : ∀ u, text.reverse.head? = some u → isSpaceUnit u = false := by
    intro u hu
    rw [List.head?_reverse] at hu
    exact h.2 u hu
  rw [trimUnits, dropWhile_of_head h.1, dropWhile_of_head hlast, List.reverse_reverse]

theorem trimUnits_cons {u : UInt16} (hu : isSpaceUnit u = false) (rest : JsString) :
    ∃ more, trimUnits (u :: rest) = u :: more := by
  have hlast : [u].dropWhile isSpaceUnit = [u] := by
    rw [List.dropWhile_cons, hu]
    rfl
  rw [trimUnits, List.dropWhile_cons, hu]
  simp only [Bool.false_eq_true, if_false]
  rw [List.reverse_cons, List.dropWhile_append, hlast]
  split
  · exact ⟨[], rfl⟩
  · rw [List.reverse_append]
    exact ⟨_, rfl⟩

end Stim.Whitespace
