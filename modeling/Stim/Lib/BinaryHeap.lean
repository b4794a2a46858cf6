import Mathlib.Tactic.Common

/-!
# Binary heaps

An array whose item `i` has the items `2 * i + 1` and `2 * i + 2` below it.  `siftUp` lets the item
at an index rise above the items it comes before, `siftDown` lets it sink under those that come
before it.  In a heap no item comes before the item it stands below, so none comes before the first.
-/

namespace Stim.BinaryHeap

universe u

variable {α : Type u} (before : α → α → Bool)

def parent (i : Nat) : Nat := (i - 1) >>> 1

/-- Both indices are taken, and the item at the first comes before the item at the second. -/
def precedes (items : Array α) (i j : Nat) : Bool :=
  match items[i]?, items[j]? with
  | some a, some b => before a b
  | _, _ => false

def siftUp (items : Array α) (i : Nat) : Array α :=
  if _h : 0 < i then
    if precedes before items i (parent i) then
      siftUp (items.swapIfInBounds i (parent i)) (parent i)
    else items
  else items
termination_by i
decreasing_by simp only [parent]; omega

/-- The index, among `i` and the two below it, of the item that comes before the others. -/
def least (items : Array α) (i : Nat) : Nat :=
  let left := 2 * i + 1
  let right := left + 1
  let best := if precedes before items left i then left else i
  if precedes before items right best then right else best

variable {before}

theorem parent_eq (i : Nat) : parent i = (i - 1) / 2 := by
  simp only [parent]
  omega

theorem lt_size_of_precedes {items : Array α} {i j : Nat} (h : precedes before items i j = true) :
    i < items.size ∧ j < items.size := by
  rw [precedes] at h
  constructor
  · by_contra hi
    simp [Array.getElem?_eq_none (Nat.le_of_not_lt hi)] at h
  · by_contra hj
    rw [Array.getElem?_eq_none (Nat.le_of_not_lt hj)] at h
    cases hcase : items[i]? <;> simp [hcase] at h

/-- The least index is `i` or one of the two below it that are taken. -/
theorem least_cases (before : α → α → Bool) (items : Array α) (i : Nat) :
    least before items i = i ∨
      (i < least before items i ∧ least before items i < items.size ∧
        parent (least before items i) = i) := by
  simp only [least]
  rw [parent_eq]
  split
  · have hleft := lt_size_of_precedes (by assumption)
    split
    · have hright := lt_size_of_precedes (by assumption)
      omega
    · omega
  · split
    · have hright := lt_size_of_precedes (by assumption)
      omega
    · exact Or.inl rfl

def siftDown (before : α → α → Bool) (items : Array α) (i : Nat) : Array α :=
  if _h : least before items i = i then items
  else siftDown before (items.swapIfInBounds i (least before items i)) (least before items i)
termination_by items.size - i
decreasing_by
  have := least_cases before items i
  simp only [Array.size_swapIfInBounds]
  omega

/-! ## The items stay the same -/

theorem swapIfInBounds_perm (items : Array α) (i j : Nat) :
    (items.swapIfInBounds i j).toList.Perm items.toList := by
  rw [Array.swapIfInBounds_def]
  split
  · split
    · exact (Array.swap_perm _ _).toList
    · exact List.Perm.refl _
  · exact List.Perm.refl _

theorem siftUp_perm (before : α → α → Bool) (items : Array α) (i : Nat) :
    (siftUp before items i).toList.Perm items.toList := by
  induction items, i using siftUp.induct before with
  | case1 items i hi hlt ih =>
      rw [siftUp]
      simp only [hi, hlt, dite_true, if_true]
      exact ih.trans (swapIfInBounds_perm items i (parent i))
  | case2 items i hi hlt =>
      rw [siftUp]
      simp [hi, hlt]
  | case3 items i hi =>
      rw [siftUp]
      simp [hi]

theorem siftDown_perm (before : α → α → Bool) (items : Array α) (i : Nat) :
    (siftDown before items i).toList.Perm items.toList := by
  induction items, i using siftDown.induct before with
  | case1 items i hleast =>
      rw [siftDown]
      simp [hleast]
  | case2 items i hleast ih =>
      rw [siftDown]
      simp only [hleast, dite_false]
      exact ih.trans (swapIfInBounds_perm items i _)

/-! ## The order of a heap -/

/-- The item at `j`, if there is one, does not come before the item at `i`. -/
def Above (before : α → α → Bool) (items : Array α) (i j : Nat) : Prop :=
  ∀ a b, items[i]? = some a → items[j]? = some b → before b a = false

def IsHeap (before : α → α → Bool) (items : Array α) : Prop :=
  ∀ j, 0 < j → Above before items (parent j) j

/-- `before` is a strict order whose incomparable elements are alike. -/
structure Strict (before : α → α → Bool) : Prop where
  asymm : ∀ {a b}, before a b = true → before b a = false
  trans : ∀ {a b c}, before b a = false → before c b = false → before c a = false

namespace Above

variable {items : Array α} {i j k : Nat}

theorem trans (hstrict : Strict before) (hj : j < items.size) (hij : Above before items i j)
    (hjk : Above before items j k) : Above before items i k := by
  intro a c ha hc
  have hb : items[j]? = some items[j] := Array.getElem?_eq_getElem hj
  exact hstrict.trans (hij _ _ ha hb) (hjk _ _ hb hc)

theorem of_precedes (hstrict : Strict before) (h : precedes before items i j = true) :
    Above before items i j := by
  intro a b ha hb
  rw [precedes, ha, hb] at h
  exact hstrict.asymm h

theorem of_not_precedes (h : precedes before items j i = false) : Above before items i j := by
  intro a b ha hb
  simpa [precedes, ha, hb] using h

theorem self (hstrict : Strict before) : Above before items i i := by
  intro a b ha hb
  have heq : a = b := Option.some.inj (ha.symm.trans hb)
  subst heq
  by_contra hne
  have htrue : before a a = true := by simpa using hne
  exact absurd (hstrict.asymm htrue) (by simp [htrue])

/-- Where the item at an index stood before the items at `i` and `j` were exchanged. -/
theorem swap_iff (hi : i < items.size) (hj : j < items.size) {a b : Nat} :
    Above before (items.swapIfInBounds i j) a b ↔
      Above before items (if a = j then i else if a = i then j else a)
        (if b = j then i else if b = i then j else b) := by
  have hswap : ∀ k, (items.swapIfInBounds i j)[k]? =
      items[if k = j then i else if k = i then j else k]? := by
    intro k
    rw [Array.swapIfInBounds_def]
    simp only [hi, hj, dite_true, Array.getElem?_swap]
    split
    · simp [*]
    · split
      · simp_all [eq_comm]
      · simp_all [eq_comm]
  simp only [Above, hswap]

end Above

/-! ## An item that rises -/

/-- The items are in order but for the item at `i`, which may come before the one above it. -/
structure Rising (before : α → α → Bool) (items : Array α) (i : Nat) : Prop where
  rest : ∀ j, 0 < j → j ≠ i → Above before items (parent j) j
  across : 0 < i → ∀ j, 0 < j → parent j = i → Above before items (parent i) j

theorem Rising.swap (hstrict : Strict before) {items : Array α} {i : Nat} (hi : 0 < i)
    (hlt : precedes before items i (parent i) = true) (h : Rising before items i) :
    Rising before (items.swapIfInBounds i (parent i)) (parent i) := by
  obtain ⟨hsize, hparent⟩ := lt_size_of_precedes hlt
  have hless : parent i < i := by rw [parent_eq]; omega
  have habove : Above before items i (parent i) := Above.of_precedes hstrict hlt
  constructor
  · intro j hj hne
    rw [Above.swap_iff hsize hparent]
    by_cases hji : j = i
    · subst hji
      simpa [hne] using habove
    · by_cases hsame : parent j = parent i
      · -- the item that rose now stands over what the other one stood over
        have hrest : Above before items (parent i) j := hsame ▸ h.rest j hj hji
        simpa [hsame, hne, hji] using habove.trans hstrict hparent hrest
      · by_cases hunder : parent j = i
        · have hover := h.across hi j hj hunder
          simpa [hunder, hne, hji, Nat.ne_of_gt hless] using hover
        · simpa [hsame, hunder, hne, hji] using h.rest j hj hji
  · intro hp j hj hunder
    rw [Above.swap_iff hsize hparent]
    have hup : parent (parent i) < parent i := by rw [parent_eq (parent i)]; omega
    have hgrand : Above before items (parent (parent i)) (parent i) :=
      h.rest (parent i) hp (Nat.ne_of_lt hless)
    have hjp : j ≠ parent i := by
      intro heq
      rw [heq] at hunder
      omega
    by_cases hji : j = i
    · subst hji
      simpa [Nat.ne_of_lt hup, Nat.ne_of_lt (Nat.lt_trans hup hless), hjp] using hgrand
    · have hrest : Above before items (parent i) j := hunder ▸ h.rest j hj hji
      simpa [Nat.ne_of_lt hup, Nat.ne_of_lt (Nat.lt_trans hup hless), hjp, hji] using
        hgrand.trans hstrict hparent hrest

theorem siftUp_isHeap (hstrict : Strict before) {items : Array α} {i : Nat}
    (h : Rising before items i) : IsHeap before (siftUp before items i) := by
  induction items, i using siftUp.induct before with
  | case1 items i hi hlt ih =>
      rw [siftUp]
      simp only [hi, hlt, dite_true, if_true]
      exact ih (h.swap hstrict hi hlt)
  | case2 items i hi hlt =>
      rw [siftUp]
      simp only [hi, hlt, dite_true]
      intro j hj
      by_cases hji : j = i
      · subst hji
        exact Above.of_not_precedes (by simpa using hlt)
      · exact h.rest j hj hji
  | case3 items i hi =>
      rw [siftUp]
      simp only [hi, dite_false]
      intro j hj
      exact h.rest j hj (by omega)

theorem rising_push {items : Array α} (h : IsHeap before items) (a : α) :
    Rising before (items.push a) items.size := by
  constructor
  · intro j hj hne x y hx hy
    rw [Array.getElem?_push, if_neg hne] at hy
    have hless : parent j < items.size := by
      have := (Array.getElem?_eq_some_iff.mp hy).1
      rw [parent_eq]
      omega
    rw [Array.getElem?_push, if_neg (Nat.ne_of_lt hless)] at hx
    exact h j hj x y hx hy
  · intro _ j hj hunder x y _ hy
    have hbound := (Array.getElem?_eq_some_iff.mp hy).1
    rw [Array.size_push] at hbound
    rw [parent_eq] at hunder
    omega

/-! ## An item that sinks -/

/-- The items are in order but for the item at `i`, which may come behind those below it. -/
structure Sinking (before : α → α → Bool) (items : Array α) (i : Nat) : Prop where
  rest : ∀ j, 0 < j → parent j ≠ i → Above before items (parent j) j
  across : 0 < i → ∀ j, 0 < j → parent j = i → Above before items (parent i) j

theorem least_above_self (hstrict : Strict before) (items : Array α) (i : Nat) :
    Above before items (least before items i) i := by
  simp only [least]
  split
  · have hleft := Above.of_precedes hstrict (by assumption)
    have hsize := (lt_size_of_precedes (by assumption)).1
    split
    · exact (Above.of_precedes hstrict (by assumption)).trans hstrict hsize hleft
    · exact hleft
  · split
    · exact Above.of_precedes hstrict (by assumption)
    · exact Above.self hstrict

theorem least_above (hstrict : Strict before) {items : Array α} {i j : Nat} (hi : i < items.size)
    (hj : 0 < j) (hunder : parent j = i) : Above before items (least before items i) j := by
  have hside : j = 2 * i + 1 ∨ j = 2 * i + 1 + 1 := by
    rw [parent_eq] at hunder
    omega
  simp only [least]
  obtain rfl | rfl := hside
  · split
    · split
      · exact Above.of_precedes hstrict (by assumption)
      · exact Above.self hstrict
    · rename_i hleft
      have hbelow : Above before items i (2 * i + 1) :=
        Above.of_not_precedes (by simpa using hleft)
      split
      · exact (Above.of_precedes hstrict (by assumption)).trans hstrict hi hbelow
      · exact hbelow
  · split
    all_goals
      split
      · exact Above.self hstrict
      · rename_i hright
        exact Above.of_not_precedes (by simpa using hright)

theorem Sinking.swap (hstrict : Strict before) {items : Array α} {i : Nat}
    (hleast : least before items i ≠ i) (h : Sinking before items i) :
    Sinking before (items.swapIfInBounds i (least before items i)) (least before items i) := by
  have habove := least_above_self hstrict items i
  have hunders : ∀ j, i < items.size → 0 < j → parent j = i →
      Above before items (least before items i) j := fun _ hi hj => least_above hstrict hi hj
  obtain hsame | ⟨hgreater, hsize, hparent⟩ := least_cases before items i
  · exact absurd hsame hleast
  generalize least before items i = c at *
  have hi : i < items.size := Nat.lt_trans hgreater hsize
  have hc : 0 < c := Nat.lt_of_le_of_lt (Nat.zero_le i) hgreater
  constructor
  · intro j hj hne
    rw [Above.swap_iff hi hsize]
    by_cases hjc : j = c
    · subst hjc
      simpa [hparent, hleast.symm] using habove
    · by_cases hji : j = i
      · subst hji
        have hup : parent j < j := by rw [parent_eq]; omega
        simpa [Nat.ne_of_lt hup, Nat.ne_of_lt (Nat.lt_trans hup hgreater), hjc] using
          h.across hj c hc hparent
      · by_cases hunder : parent j = i
        · simpa [hunder, hleast.symm, hjc, hji] using hunders j hi hj hunder
        · simpa [hunder, hne, hjc, hji] using h.rest j hj hunder
  · intro _ j hj hunder
    rw [Above.swap_iff hi hsize]
    have hless : c < j := by
      rw [parent_eq] at hunder
      omega
    have hrest : Above before items c j := hunder ▸ h.rest j hj (by rw [hunder]; exact hleast)
    have hji : j ≠ i := by omega
    simpa [hparent, hleast.symm, Nat.ne_of_gt hless, hji] using hrest

theorem siftDown_isHeap (hstrict : Strict before) {items : Array α} {i : Nat}
    (hi : i < items.size) (h : Sinking before items i) :
    IsHeap before (siftDown before items i) := by
  induction items, i using siftDown.induct before with
  | case1 items i hleast =>
      rw [siftDown]
      simp only [hleast, dite_true]
      intro j hj
      by_cases hunder : parent j = i
      · have := least_above hstrict hi hj hunder
        rwa [hleast, ← hunder] at this
      · exact h.rest j hj hunder
  | case2 items i hleast ih =>
      rw [siftDown]
      simp only [hleast, dite_false]
      obtain hsame | ⟨_, hsize, _⟩ := least_cases before items i
      · exact absurd hsame hleast
      · exact ih (by rwa [Array.size_swapIfInBounds]) (h.swap hstrict hleast)

theorem sinking_set {items : Array α} (h : IsHeap before items) (a : α) :
    Sinking before (items.setIfInBounds 0 a) 0 := by
  constructor
  · intro j hj hne x y hx hy
    rw [Array.getElem?_setIfInBounds_ne (by omega)] at hx hy
    exact h j hj x y hx hy
  · intro h0
    omega

theorem isHeap_pop {items : Array α} (h : IsHeap before items) : IsHeap before items.pop := by
  intro j hj x y hx hy
  rw [Array.getElem?_pop] at hx hy
  split_ifs at hx hy
  exact h j hj x y hx hy

/-- No item of a heap comes before its first. -/
theorem root_above (hstrict : Strict before) {items : Array α} (h : IsHeap before items) (j : Nat) :
    Above before items 0 j := by
  induction j using Nat.strongRecOn with
  | _ j ih =>
      by_cases hj : 0 < j
      · by_cases hsize : j < items.size
        · have hless : parent j < j := by rw [parent_eq]; omega
          exact (ih (parent j) hless).trans hstrict (Nat.lt_trans hless hsize) (h j hj)
        · intro a b _ hb
          rw [Array.getElem?_eq_none (Nat.le_of_not_lt hsize)] at hb
          cases hb
      · rw [show j = 0 by omega]
        exact Above.self hstrict

end Stim.BinaryHeap
