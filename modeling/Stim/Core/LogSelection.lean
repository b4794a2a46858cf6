import Mathlib.Data.List.Induction
import Mathlib.Data.List.Sort
import Stim.Lib.BinaryHeap

/-!
# A bounded selection

`BoundedSelection` of `packages/core/state/log-selection.ts` keeps the greatest of the elements it
is given, or the least, in a heap whose first element is the next to go.  `compare` is below 0 where
its first argument comes first.  A heap has fewer than 2^31 elements, so `>>` halves an index.
-/

namespace Stim.LogSelection

universe u

structure BoundedSelection (T : Type u) where
  compare : T → T → Int
  tail : Option Int
  first : Bool
  items : Array T

namespace BoundedSelection

variable {T : Type u}

/-- The constructor. -/
def new (compare : T → T → Int) (tail : Option Int) (first : Bool) : BoundedSelection T where
  compare := compare
  tail := tail
  first := first
  items := #[]

def before (s : BoundedSelection T) (a b : T) : Bool :=
  (if s.first then s.compare b a else s.compare a b) < 0

def peek (s : BoundedSelection T) : Option T := s.items[0]?

def pop (s : BoundedSelection T) : BoundedSelection T :=
  match s.items.back? with
  | none => s
  | some last =>
      if s.items.pop.isEmpty then { s with items := s.items.pop }
      else { s with items := BinaryHeap.siftDown s.before (s.items.pop.setIfInBounds 0 last) 0 }

/-- `this.tail !== undefined && this.tail <= 0` -/
def keepsNone (s : BoundedSelection T) : Bool := s.tail.any (· ≤ 0)

/-- `this.tail !== undefined && items.length > this.tail` -/
def isOver (s : BoundedSelection T) : Bool := s.tail.any fun tail => tail < (s.items.size : Int)

/-- The entry joins the items and rises. -/
def push (s : BoundedSelection T) (entry : T) : BoundedSelection T :=
  { s with items := BinaryHeap.siftUp s.before (s.items.push entry) s.items.size }

def keep (s : BoundedSelection T) (entry : T) : BoundedSelection T :=
  if s.keepsNone then s
  else if (s.push entry).isOver then (s.push entry).pop
  else s.push entry

/-- `toSorted`, which is stable. -/
def sorted (s : BoundedSelection T) : List T :=
  s.items.toList.mergeSort fun a b => s.compare a b ≤ 0

end BoundedSelection

/-! ## What is kept -/

/-- `compare` gives a strict total order. -/
structure TotalOrder {T : Type u} (compare : T → T → Int) : Prop where
  zero : ∀ a b, compare a b = 0 ↔ a = b
  swap : ∀ a b, compare a b < 0 ↔ 0 < compare b a
  trans : ∀ a b c, compare a b < 0 → compare b c < 0 → compare a c < 0

namespace TotalOrder

variable {T : Type u} {compare : T → T → Int}

theorem le_iff (h : TotalOrder compare) (a b : T) : compare a b ≤ 0 ↔ ¬ compare b a < 0 := by
  rw [h.swap b a]
  omega

theorem le_trans (h : TotalOrder compare) {a b c : T} (hab : compare a b ≤ 0)
    (hbc : compare b c ≤ 0) : compare a c ≤ 0 := by
  obtain hab | hab := Int.lt_or_eq_of_le hab
  · obtain hbc | hbc := Int.lt_or_eq_of_le hbc
    · exact Int.le_of_lt (h.trans a b c hab hbc)
    · rw [← (h.zero b c).mp hbc]
      exact Int.le_of_lt hab
  · rw [(h.zero a b).mp hab]
    exact hbc

theorem le_total (h : TotalOrder compare) (a b : T) : compare a b ≤ 0 ∨ compare b a ≤ 0 := by
  by_cases hab : compare a b < 0
  · exact Or.inl (Int.le_of_lt hab)
  · exact Or.inr ((h.le_iff b a).mpr hab)

theorem le_antisymm (h : TotalOrder compare) {a b : T} (hab : compare a b ≤ 0)
    (hba : compare b a ≤ 0) : a = b := by
  have hnot := (h.le_iff b a).mp hba
  exact (h.zero a b).mp (by omega)

end TotalOrder

section Ascending

variable {T : Type u} {compare : T → T → Int}

/-- The elements from the least to the greatest. -/
def ascending (compare : T → T → Int) (entries : List T) : List T :=
  entries.mergeSort fun a b => compare a b ≤ 0

theorem ascending_perm (compare : T → T → Int) (entries : List T) :
    (ascending compare entries).Perm entries := List.mergeSort_perm entries _

theorem pairwise_ascending (h : TotalOrder compare) (entries : List T) :
    (ascending compare entries).Pairwise fun a b => compare a b ≤ 0 := by
  have hsorted : (entries.mergeSort fun a b => decide (compare a b ≤ 0)).Pairwise
      fun a b => decide (compare a b ≤ 0) = true := List.pairwise_mergeSort
    (fun a b c hab hbc => by simpa using h.le_trans (by simpa using hab) (by simpa using hbc))
    (fun a b => by simpa using h.le_total a b) entries
  simpa [ascending] using hsorted

/-- A list that ascends is the ascending list of its elements. -/
theorem ascending_eq (h : TotalOrder compare) {entries sorted : List T}
    (hperm : sorted.Perm entries) (hsorted : sorted.Pairwise fun a b => compare a b ≤ 0) :
    ascending compare entries = sorted := by
  apply List.Perm.eq_of_pairwise ?_ (pairwise_ascending h entries) hsorted
    ((ascending_perm compare entries).trans hperm.symm)
  intro a b _ _ hab hba
  exact h.le_antisymm hab hba

/-- The elements split at a place that no element on the left comes behind one on the right. -/
theorem ascending_append (h : TotalOrder compare) {left right entries : List T}
    (hperm : (left ++ right).Perm entries) (hsplit : ∀ a ∈ left, ∀ b ∈ right, compare a b ≤ 0) :
    ascending compare entries = ascending compare left ++ ascending compare right := by
  apply ascending_eq h
  · exact ((ascending_perm compare left).append (ascending_perm compare right)).trans hperm
  · rw [List.pairwise_append]
    constructor
    · exact pairwise_ascending h left
    · constructor
      · exact pairwise_ascending h right
      · intro a ha b hb
        exact hsplit a ((ascending_perm compare left).mem_iff.mp ha) b
          ((ascending_perm compare right).mem_iff.mp hb)

end Ascending

namespace BoundedSelection

variable {T : Type u} {compare : T → T → Int} {tail : Option Int} {first : Bool}

/-- The selection was made with these arguments. -/
structure Made (compare : T → T → Int) (tail : Option Int) (first : Bool)
    (s : BoundedSelection T) : Prop where
  compare_eq : s.compare = compare
  tail_eq : s.tail = tail
  first_eq : s.first = first

variable {s : BoundedSelection T}

theorem Made.strict (h : TotalOrder compare) (hs : Made compare tail first s) :
    BinaryHeap.Strict s.before := by
  have hstrict : BinaryHeap.Strict fun a b : T => decide (compare a b < 0) := by
    constructor
    · intro a b hab
      have hab : compare a b < 0 := by simpa using hab
      simpa using (h.le_iff a b).mp (Int.le_of_lt hab)
    · intro a b c hba hcb
      have hab : compare a b ≤ 0 := (h.le_iff a b).mpr (by simpa using hba)
      have hbc : compare b c ≤ 0 := (h.le_iff b c).mpr (by simpa using hcb)
      simpa using (h.le_iff a c).mp (h.le_trans hab hbc)
  constructor
  · intro a b hab
    simp only [before, hs.compare_eq, hs.first_eq] at hab ⊢
    cases first with
    | false => exact hstrict.asymm hab
    | true => exact hstrict.asymm hab
  · intro a b c hba hcb
    simp only [before, hs.compare_eq, hs.first_eq] at hba hcb ⊢
    cases first with
    | false => exact hstrict.trans hba hcb
    | true => exact hstrict.trans hcb hba

/-- Two elements of which neither comes before the other are one. -/
theorem Made.eq_of_not_before (h : TotalOrder compare) (hs : Made compare tail first s) {a b : T}
    (hab : s.before a b = false) (hba : s.before b a = false) : a = b := by
  have hnot : ∀ x y, ¬ compare x y < 0 → ¬ compare y x < 0 → x = y := by
    intro x y hxy hyx
    exact h.le_antisymm ((h.le_iff x y).mpr hyx) ((h.le_iff y x).mpr hxy)
  simp only [before, hs.compare_eq, hs.first_eq] at hab hba
  cases first with
  | false => exact hnot a b (by simpa using hab) (by simpa using hba)
  | true => exact hnot a b (by simpa using hba) (by simpa using hab)

theorem push_perm (s : BoundedSelection T) (entry : T) :
    (s.push entry).items.toList.Perm (entry :: s.items.toList) := by
  have hsift := BinaryHeap.siftUp_perm s.before (s.items.push entry) s.items.size
  rw [Array.toList_push] at hsift
  exact hsift.trans (List.perm_append_singleton entry s.items.toList)

theorem push_isHeap (hstrict : BinaryHeap.Strict s.before)
    (hheap : BinaryHeap.IsHeap s.before s.items) (entry : T) :
    BinaryHeap.IsHeap s.before (s.push entry).items :=
  BinaryHeap.siftUp_isHeap hstrict (BinaryHeap.rising_push hheap entry)

/-- No item comes before the first. -/
theorem peek_least (hstrict : BinaryHeap.Strict s.before)
    (hheap : BinaryHeap.IsHeap s.before s.items) {a b : T} (ha : s.peek = some a)
    (hb : b ∈ s.items) : s.before b a = false := by
  obtain ⟨j, hj, rfl⟩ := Array.mem_iff_getElem.mp hb
  exact BinaryHeap.root_above hstrict hheap j a s.items[j] ha (Array.getElem?_eq_getElem hj)

/-- `pop` takes out the first item. -/
theorem pop_perm {a : T} (ha : s.peek = some a) :
    s.items.toList.Perm (a :: s.pop.items.toList) := by
  obtain ⟨compare, tail, first, ⟨items⟩⟩ := s
  cases items with
  | nil => simp [peek] at ha
  | cons b rest =>
      have hab : b = a := by simpa [peek] using ha
      subst hab
      obtain rfl | ⟨front, last, rfl⟩ := List.eq_nil_or_concat rest
      · simp [pop]
      · have hback : (⟨b :: (front ++ [last])⟩ : Array T).back? = some last := by
          rw [← Array.getLast?_toList, ← List.cons_append]
          exact List.getLast?_concat
        have hpop : (⟨b :: (front ++ [last])⟩ : Array T).pop = ⟨b :: front⟩ := by
          simp [List.dropLast]
        simp only [pop, List.concat_eq_append, hback, hpop]
        have hne : (⟨b :: front⟩ : Array T).isEmpty = false := by simp
        simp only [hne, Bool.false_eq_true, if_false]
        apply List.Perm.cons
        apply List.Perm.trans ?_ (BinaryHeap.siftDown_perm _ _ _).symm
        simp [List.perm_append_singleton]

theorem pop_isHeap (hstrict : BinaryHeap.Strict s.before)
    (hheap : BinaryHeap.IsHeap s.before s.items) : BinaryHeap.IsHeap s.before s.pop.items := by
  rw [pop]
  split
  · exact hheap
  · next last hlast =>
    have hpop := BinaryHeap.isHeap_pop hheap
    split
    · exact hpop
    · next hne =>
      apply BinaryHeap.siftDown_isHeap hstrict _ (BinaryHeap.sinking_set hpop last)
      rw [Array.size_setIfInBounds]
      apply Nat.pos_of_ne_zero
      intro hzero
      exact hne (by simp [Array.isEmpty, hzero])

theorem pop_fields (s : BoundedSelection T) :
    s.pop.compare = s.compare ∧ s.pop.tail = s.tail ∧ s.pop.first = s.first := by
  rw [pop]
  split
  · exact ⟨rfl, rfl, rfl⟩
  · split
    · exact ⟨rfl, rfl, rfl⟩
    · exact ⟨rfl, rfl, rfl⟩

end BoundedSelection

namespace BoundedSelection

variable {T : Type u} {compare : T → T → Int} {tail : Option Int} {first : Bool}

/-- What a selection holds of the elements it was given: `gone` are those it evicted, each of which
comes before all that it holds, and it evicts only when it is full. -/
structure Holds (compare : T → T → Int) (tail : Option Int) (first : Bool) (seen gone : List T)
    (s : BoundedSelection T) : Prop extends Made compare tail first s where
  heap : BinaryHeap.IsHeap s.before s.items
  perm : (gone ++ s.items.toList).Perm seen
  split : ∀ a ∈ gone, ∀ b ∈ s.items, s.before a b = true
  unbounded : tail = none → gone = []
  bounded : ∀ bound, tail = some bound → s.items.size ≤ bound.toNat
  full : ∀ bound, tail = some bound → gone ≠ [] → s.items.size = bound.toNat

theorem holds_new (compare : T → T → Int) (tail : Option Int) (first : Bool) :
    Holds compare tail first [] [] (new compare tail first) := by
  constructor
  · exact ⟨rfl, rfl, rfl⟩
  · intro j _ a b ha
    simp [new] at ha
  · exact List.Perm.refl _
  · intro a ha
    cases ha
  · intro _
    rfl
  · intro bound _
    exact Nat.zero_le _
  · intro bound _ hne
    exact absurd rfl hne

variable {s : BoundedSelection T}

/-- Of two elements that differ one comes before the other. -/
theorem Made.before_of_ne (h : TotalOrder compare) (hs : Made compare tail first s) {a b : T}
    (hne : a ≠ b) (hba : s.before b a = false) : s.before a b = true := by
  by_contra hab
  exact hne (hs.eq_of_not_before h (by simpa using hab) hba)

theorem before_trans (hstrict : BinaryHeap.Strict s.before) {a b c : T}
    (hab : s.before a b = true) (hbc : s.before b c = true) : s.before a c = true := by
  by_contra hac
  have hcb := hstrict.trans (by simpa using hac) (hstrict.asymm hab)
  rw [hbc] at hcb
  cases hcb

theorem mem_push {entry a : T} : a ∈ (s.push entry).items ↔ a = entry ∨ a ∈ s.items := by
  rw [← Array.mem_toList_iff, (push_perm s entry).mem_iff, List.mem_cons, Array.mem_toList_iff]

theorem size_push (s : BoundedSelection T) (entry : T) :
    (s.push entry).items.size = s.items.size + 1 := by
  have hlength := (push_perm s entry).length_eq
  simpa using hlength

/-- A call of `keep` evicts nothing, or the first item when the entry has joined. -/
theorem keep_cases (s : BoundedSelection T) (entry : T) :
    (s.keepsNone = true ∧ s.keep entry = s) ∨
      (s.keepsNone = false ∧ (s.push entry).isOver = false ∧ s.keep entry = s.push entry) ∨
      (s.keepsNone = false ∧ (s.push entry).isOver = true ∧
        s.keep entry = (s.push entry).pop) := by
  rw [keep]
  cases hnone : s.keepsNone with
  | true => simp
  | false =>
      cases hover : (s.push entry).isOver with
      | true => simp
      | false => simp

/-- What one call of `keep` preserves. -/
theorem Holds.keep (h : TotalOrder compare) {seen gone : List T}
    (hs : Holds compare tail first seen gone s) {entry : T} (hnew : entry ∉ seen)
    (hseen : seen.Nodup) :
    ∃ gone', Holds compare tail first (seen ++ [entry]) gone' (s.keep entry) := by
  have hstrict := hs.toMade.strict h
  have hjoined : ∀ l : List T, l.Perm (entry :: s.items.toList) →
      (gone ++ l).Perm (seen ++ [entry]) := by
    intro l hl
    have hfront : (gone ++ l).Perm (entry :: (gone ++ s.items.toList)) :=
      (hl.append_left gone).trans List.perm_middle
    exact hfront.trans ((hs.perm.cons entry).trans (List.perm_append_singleton entry seen).symm)
  obtain ⟨hnone, hkeep⟩ | ⟨hnone, hover, hkeep⟩ | ⟨hnone, hover, hkeep⟩ := keep_cases s entry
  · -- nothing is kept: the entry is gone at once
    rw [hkeep]
    rw [keepsNone, hs.tail_eq, Option.any_eq_true] at hnone
    obtain ⟨bound, rfl, hbound⟩ := hnone
    have hempty : s.items.size = 0 := by
      have hle := hs.bounded bound rfl
      simp only [decide_eq_true_eq] at hbound
      omega
    have hitems : s.items = #[] := Array.size_eq_zero_iff.mp hempty
    exact ⟨gone ++ [entry],
      { hs with
        perm := by
          rw [List.append_assoc]
          apply hjoined
          simp [hitems]
        split := by
          intro a _ b hb
          simp [hitems] at hb
        unbounded := by
          intro htail
          cases htail
        full := by
          intro bound' htail _
          have hle := hs.bounded bound' htail
          cases htail
          simp only [decide_eq_true_eq] at hbound
          omega }⟩
  · rw [hkeep]
    have hgone : gone = [] := by
      cases htail : tail with
      | none => exact hs.unbounded htail
      | some bound =>
          by_contra hne
          have hfull := hs.full bound htail hne
          rw [isOver, size_push] at hover
          have hpushed : (s.push entry).tail = some bound := hs.tail_eq.trans htail
          rw [keepsNone, hs.tail_eq, htail] at hnone
          simp only [hpushed, Option.any_some, decide_eq_false_iff_not] at hover hnone
          omega
    exact ⟨gone,
      { compare_eq := hs.compare_eq
        tail_eq := hs.tail_eq
        first_eq := hs.first_eq
        heap := push_isHeap hstrict hs.heap entry
        perm := hjoined _ (push_perm s entry)
        split := by
          intro a ha
          simp [hgone] at ha
        unbounded := hs.unbounded
        bounded := by
          intro bound htail
          have hpushed : (s.push entry).tail = some bound := hs.tail_eq.trans htail
          rw [isOver, hpushed, Option.any_some, decide_eq_false_iff_not] at hover
          omega
        full := by
          intro bound _ hne
          exact absurd hgone hne }⟩
  · rw [hkeep]
    have hheap := push_isHeap hstrict hs.heap entry
    obtain ⟨evicted, hpeek⟩ : ∃ a, (s.push entry).peek = some a := by
      exact ⟨_, Array.getElem?_eq_getElem (by rw [size_push]; omega)⟩
    have hperm := pop_perm hpeek
    have hpushed : (s.push entry).items.toList.Nodup := by
      rw [(push_perm s entry).nodup_iff, List.nodup_cons]
      constructor
      · intro hmem
        exact hnew (hs.perm.mem_iff.mp (List.mem_append_right gone hmem))
      · exact (List.nodup_append.mp (hs.perm.nodup_iff.mpr hseen)).2.1
    have hrest : evicted ∉ (s.push entry).pop.items.toList :=
      (List.nodup_cons.mp (hperm.nodup_iff.mp hpushed)).1
    -- what is left was there before, and comes behind what is evicted
    have hmem : ∀ b ∈ (s.push entry).pop.items, b ∈ (s.push entry).items := by
      intro b hb
      rw [← Array.mem_toList_iff, hperm.mem_iff]
      exact List.mem_cons_of_mem _ (Array.mem_toList_iff.mpr hb)
    have hleast : ∀ b ∈ (s.push entry).pop.items, s.before evicted b = true := by
      intro b hb
      apply hs.toMade.before_of_ne h
      · rintro rfl
        exact hrest (Array.mem_toList_iff.mpr hb)
      · exact peek_least (s := s.push entry) hstrict hheap hpeek (hmem b hb)
    have hevicted : evicted = entry ∨ evicted ∈ s.items := by
      rw [← mem_push, ← Array.mem_toList_iff, hperm.mem_iff]
      exact List.mem_cons_self
    have hsize : (s.push entry).pop.items.size = s.items.size := by
      have hlength := hperm.length_eq
      rw [Array.length_toList, size_push, List.length_cons, Array.length_toList] at hlength
      omega
    obtain ⟨hcompare, htail, hfirst⟩ := pop_fields (s.push entry)
    exact ⟨gone ++ [evicted],
      { compare_eq := hcompare.trans hs.compare_eq
        tail_eq := htail.trans hs.tail_eq
        first_eq := hfirst.trans hs.first_eq
        heap := by
          have hpopped := pop_isHeap (s := s.push entry) hstrict hheap
          have hbefore : (s.push entry).pop.before = s.before := by
            funext a b
            simp only [before, hcompare, hfirst]
            rfl
          rw [hbefore]
          exact hpopped
        perm := by
          rw [List.append_assoc]
          exact hjoined _ (hperm.symm.trans (push_perm s entry))
        split := by
          have hbefore : (s.push entry).pop.before = s.before := by
            funext a b
            simp only [before, hcompare, hfirst]
            rfl
          rw [hbefore]
          intro a ha b hb
          obtain ha | ha := List.mem_append.mp ha
          · obtain rfl | hb' := mem_push.mp (hmem b hb)
            · obtain hev | hev := hevicted
              · -- the entry stayed, so something else went
                subst hev
                exact absurd (Array.mem_toList_iff.mpr hb) hrest
              · exact before_trans hstrict (hs.split a ha evicted hev) (hleast b hb)
            · exact hs.split a ha b hb'
          · rw [List.mem_singleton.mp ha]
            exact hleast b hb
        unbounded := by
          intro hnil
          have hpushed : (s.push entry).tail = none := hs.tail_eq.trans hnil
          rw [isOver, hpushed] at hover
          cases hover
        bounded := by
          intro bound hbound
          rw [hsize]
          exact hs.bounded bound hbound
        full := by
          intro bound hbound _
          have hpushed : (s.push entry).tail = some bound := hs.tail_eq.trans hbound
          rw [isOver, hpushed, Option.any_some, decide_eq_true_eq, size_push] at hover
          have hle := hs.bounded bound hbound
          rw [keepsNone, hs.tail_eq, hbound] at hnone
          simp only [Option.any_some, decide_eq_false_iff_not] at hnone
          omega }⟩

end BoundedSelection

section Selected

variable {T : Type u} {compare : T → T → Int} {tail : Option Int} {first : Bool}

/-- The `tail` greatest elements, or the `tail` least, from the least to the greatest. -/
def selected (compare : T → T → Int) (tail : Option Int) (first : Bool) (entries : List T) :
    List T :=
  match tail with
  | none => ascending compare entries
  | some bound =>
      if first then (ascending compare entries).take bound.toNat
      else (ascending compare entries).drop (entries.length - bound.toNat)

namespace BoundedSelection

theorem holds_foldl (h : TotalOrder compare) (tail : Option Int) (first : Bool) (entries : List T)
    (hdistinct : entries.Nodup) :
    ∃ gone, Holds compare tail first entries gone (entries.foldl keep (new compare tail first)) := by
  induction entries using List.reverseRecOn with
  | nil => exact ⟨[], holds_new compare tail first⟩
  | append_singleton seen entry ih =>
      rw [List.nodup_append] at hdistinct
      obtain ⟨gone, hs⟩ := ih hdistinct.1
      rw [List.foldl_append]
      apply hs.keep h _ hdistinct.1
      intro hmem
      exact hdistinct.2.2 entry hmem entry List.mem_cons_self rfl

variable {s : BoundedSelection T}

/-- A first item that comes before the others stands at an end of the ascending list. -/
theorem ends_ascending (h : TotalOrder compare) (hs : Made compare tail first s) {a : T}
    {rest items : List T} (hperm : items.Perm (a :: rest))
    (hleast : ∀ b ∈ rest, s.before b a = false) :
    (if first then (ascending compare items).getLast? else (ascending compare items).head?) =
      some a := by
  have hsingle : ascending compare [a] = [a] := List.mergeSort_singleton a
  cases first with
  | false =>
      have hperm' : ([a] ++ rest).Perm items := hperm.symm
      have hsplit := ascending_append h hperm' (by
        intro x hx b hb
        have hnot := hleast b hb
        rw [List.mem_singleton.mp hx]
        simp only [before, hs.compare_eq, hs.first_eq, Bool.false_eq_true, if_false,
          decide_eq_false_iff_not] at hnot
        exact (h.le_iff a b).mpr hnot)
      simp [hsplit, hsingle]
  | true =>
      have hperm' : (rest ++ [a]).Perm items :=
        (List.perm_append_singleton a rest).trans hperm.symm
      have hsplit := ascending_append h hperm' (by
        intro b hb x hx
        have hnot := hleast b hb
        rw [List.mem_singleton.mp hx]
        simp only [before, hs.compare_eq, hs.first_eq, if_true, decide_eq_false_iff_not] at hnot
        exact (h.le_iff b a).mpr hnot)
      simp [hsplit, hsingle]

variable {seen gone : List T}

theorem Holds.sorted_eq (h : TotalOrder compare) (hs : Holds compare tail first seen gone s) :
    s.sorted = selected compare tail first seen := by
  have hsorted : s.sorted = ascending compare s.items.toList := by
    rw [sorted, hs.compare_eq]
    rfl
  have hlength : gone.length + s.items.size = seen.length := by
    have := hs.perm.length_eq
    simpa using this
  have hgone : (ascending compare gone).length = gone.length :=
    (ascending_perm compare gone).length_eq
  have hitems : (ascending compare s.items.toList).length = s.items.size := by
    rw [(ascending_perm compare _).length_eq, Array.length_toList]
  rw [hsorted]
  cases tail with
  | none =>
      have hnil := hs.unbounded rfl
      subst hnil
      exact (ascending_eq h ((ascending_perm compare _).trans hs.perm)
        (pairwise_ascending h _)).symm
  | some bound =>
      have hle := hs.bounded bound rfl
      have hfull := hs.full bound rfl
      have hcount : gone = [] ∨ s.items.size = bound.toNat := by
        by_cases hnil : gone = []
        · exact Or.inl hnil
        · exact Or.inr (hfull hnil)
      cases first with
      | false =>
          have hsplit := ascending_append h hs.perm (by
            intro a ha b hb
            have hab := hs.split a ha b (Array.mem_toList_iff.mp hb)
            simp only [before, hs.compare_eq, hs.first_eq, Bool.false_eq_true, if_false,
              decide_eq_true_eq] at hab
            exact Int.le_of_lt hab)
          have hdrop : seen.length - bound.toNat = (ascending compare gone).length := by
            obtain hnil | hsize := hcount
            · subst hnil
              simp only [List.length_nil] at hlength hgone
              omega
            · omega
          simp only [selected, Bool.false_eq_true, if_false]
          rw [hsplit, hdrop, List.drop_left]
      | true =>
          have hsplit := ascending_append h
            (List.perm_append_comm.trans hs.perm : (s.items.toList ++ gone).Perm seen) (by
            intro b hb a ha
            have hab := hs.split a ha b (Array.mem_toList_iff.mp hb)
            simp only [before, hs.compare_eq, hs.first_eq, if_true, decide_eq_true_eq] at hab
            exact Int.le_of_lt hab)
          simp only [selected, if_true]
          rw [hsplit]
          obtain hnil | hsize := hcount
          · subst hnil
            have hnone : ascending compare ([] : List T) = [] := List.mergeSort_nil
            rw [hnone, List.append_nil, List.take_of_length_le (by omega)]
          · rw [← hsize, ← hitems, List.take_left]

theorem Holds.peek_eq (h : TotalOrder compare) (hs : Holds compare tail first seen gone s) :
    s.peek = if first then s.sorted.getLast? else s.sorted.head? := by
  have hsorted : s.sorted = ascending compare s.items.toList := by
    rw [sorted, hs.compare_eq]
    rfl
  have hstrict := hs.toMade.strict h
  rw [hsorted]
  cases hpeek : s.peek with
  | none =>
      have hempty : s.items.toList = [] := by
        have hsize := Array.getElem?_eq_none_iff.mp hpeek
        simpa using hsize
      have hnone : ascending compare ([] : List T) = [] := List.mergeSort_nil
      rw [hempty, hnone]
      cases first <;> rfl
  | some a =>
      have hperm := pop_perm hpeek
      apply Eq.symm
      apply ends_ascending h hs.toMade hperm
      intro b hb
      apply peek_least hstrict hs.heap hpeek
      rw [← Array.mem_toList_iff, hperm.mem_iff]
      exact List.mem_cons_of_mem a hb

/-- What a call of `keep` takes out of the items is the first item. -/
theorem Holds.peek_of_evicted (h : TotalOrder compare) (hs : Holds compare tail first seen gone s)
    {entry a : T} (ha : a ∈ s.items) (hgone : a ∉ (s.keep entry).items) : s.peek = some a := by
  have hstrict := hs.toMade.strict h
  have hpushed : a ∈ (s.push entry).items := mem_push.mpr (Or.inr ha)
  obtain ⟨_, hkeep⟩ | ⟨_, _, hkeep⟩ | ⟨_, _, hkeep⟩ := keep_cases s entry
  · rw [hkeep] at hgone
    exact absurd ha hgone
  · rw [hkeep] at hgone
    exact absurd hpushed hgone
  · rw [hkeep] at hgone
    obtain ⟨root, hroot⟩ : ∃ b, s.peek = some b := by
      have hsize := Array.size_pos_of_mem ha
      exact ⟨_, Array.getElem?_eq_getElem hsize⟩
    obtain ⟨evicted, hpeek⟩ : ∃ b, (s.push entry).peek = some b := by
      exact ⟨_, Array.getElem?_eq_getElem (by rw [size_push]; omega)⟩
    have hevicted : a = evicted := by
      have hmem := (pop_perm hpeek).mem_iff.mp (Array.mem_toList_iff.mpr hpushed)
      obtain hsame | hrest := List.mem_cons.mp hmem
      · exact hsame
      · exact absurd (Array.mem_toList_iff.mp hrest) hgone
    have hrooted : root ∈ s.items := Array.mem_of_getElem? hroot
    have hleft : s.before a root = false := peek_least hstrict hs.heap hroot ha
    have hright : s.before root a = false := by
      rw [hevicted]
      exact peek_least (s := s.push entry) hstrict (push_isHeap hstrict hs.heap entry) hpeek
        (mem_push.mpr (Or.inr hrooted))
    rw [hroot, hs.toMade.eq_of_not_before h hleft hright]

end BoundedSelection

open BoundedSelection in
/-- The selection holds the elements its bound and direction ask for, and `peek` is the one that a
further element would evict. -/
theorem keeps_selected (h : TotalOrder compare) (tail : Option Int) (first : Bool)
    (entries : List T) (hdistinct : entries.Nodup) :
    (entries.foldl keep (new compare tail first)).sorted = selected compare tail first entries ∧
      ((entries.foldl keep (new compare tail first)).peek =
        if first then (selected compare tail first entries).getLast?
        else (selected compare tail first entries).head?) ∧
      ∀ entry, entry ∉ entries → ∀ a ∈ selected compare tail first entries,
        a ∉ ((entries ++ [entry]).foldl keep (new compare tail first)).items →
        (entries.foldl keep (new compare tail first)).peek = some a := by
  obtain ⟨gone, hs⟩ := holds_foldl h tail first entries hdistinct
  have hsorted := hs.sorted_eq h
  constructor
  · exact hsorted
  · constructor
    · rw [← hsorted]
      exact hs.peek_eq h
    · intro entry _ a ha hgone
      rw [List.foldl_append] at hgone
      apply hs.peek_of_evicted h _ hgone
      rw [← hsorted] at ha
      exact Array.mem_toList_iff.mp (List.mem_mergeSort.mp ha)

theorem keeps_selected_numbers :
    TotalOrder (fun a b : Int => a - b) ∧
      ([4, 1, 3].foldl BoundedSelection.keep
        (.new (fun a b : Int => a - b) (some 2) false)).sorted =
        selected (fun a b : Int => a - b) (some 2) false [4, 1, 3] := by
  have horder : TotalOrder (fun a b : Int => a - b) := by
    constructor
    · intro a b
      omega
    · intro a b
      omega
    · intro a b c
      omega
  exact ⟨horder, (keeps_selected horder (some 2) false [4, 1, 3] (by decide)).1⟩

end Selected

end Stim.LogSelection
