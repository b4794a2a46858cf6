import Mathlib.Data.List.Count

/-!
# Items that are known by count

Of a list of items those are left whose keys are not known; each known key takes one item away
for each time that it is known.
-/

namespace Stim.Counted

variable {α κ : Type} [DecidableEq κ] (key : α → κ)

/-- One more known key. -/
def know (known : κ → Nat) (k : κ) : κ → Nat := Function.update known k (known k + 1)

/-- A known key that took an item away. -/
def spend (known : κ → Nat) (k : κ) : κ → Nat := Function.update known k (known k - 1)

def unknown : (κ → Nat) → List α → List α
  | _, [] => []
  | known, item :: items =>
      if known (key item) = 0 then item :: unknown known items
      else unknown (spend known (key item)) items

variable {key}

theorem foldl_know (known : κ → Nat) (keys : List κ) (k : κ) :
    keys.foldl know known k = known k + keys.count k := by
  induction keys generalizing known with
  | nil => rfl
  | cons first keys ih =>
      rw [List.foldl_cons, ih, know]
      by_cases h : k = first
      · subst h
        rw [Function.update_self, List.count_cons_self]
        omega
      · rw [Function.update_of_ne h, List.count_cons_of_ne (Ne.symm h)]

/-- Where a key is the key of one item only, it takes that item away as often as it is known. -/
theorem count_unknown [DecidableEq α] {known : κ → Nat} {items : List α} {item : α}
    (hkey : ∀ other ∈ items, key other = key item → other = item) :
    (unknown key known items).count item = items.count item - known (key item) := by
  induction items generalizing known with
  | nil => simp [unknown]
  | cons first items ih =>
      have hrest : ∀ other ∈ items, key other = key item → other = item :=
        fun other hmem => hkey other (List.mem_cons_of_mem first hmem)
      unfold unknown
      by_cases hfirst : first = item
      · subst hfirst
        split_ifs with hzero
        · rw [List.count_cons_self, List.count_cons_self, ih hrest, hzero]
          omega
        · rw [ih hrest, List.count_cons_self, spend, Function.update_self]
          omega
      · have hne : key item ≠ key first :=
          fun heq => hfirst (hkey first List.mem_cons_self heq.symm)
        rw [List.count_cons_of_ne hfirst]
        split_ifs with hzero
        · rw [List.count_cons_of_ne hfirst, ih hrest]
        · rw [ih hrest, spend, Function.update_of_ne hne]

theorem unknown_sublist (known : κ → Nat) (items : List α) :
    (unknown key known items).Sublist items := by
  induction items generalizing known with
  | nil => exact List.Sublist.refl _
  | cons first items ih =>
      unfold unknown
      split_ifs
      · exact (ih known).cons_cons first
      · exact (ih _).cons first

/-- Nothing is known. -/
theorem unknown_zero (items : List α) : unknown key (fun _ => 0) items = items := by
  induction items with
  | nil => rfl
  | cons first items ih => rw [unknown, if_pos rfl, ih]

theorem count_map_key [DecidableEq α] {items : List α} {item : α}
    (hkey : ∀ other ∈ items, key other = key item → other = item) :
    (items.map key).count (key item) = items.count item := by
  induction items with
  | nil => rfl
  | cons first items ih =>
      have hrest : ∀ other ∈ items, key other = key item → other = item :=
        fun other hmem => hkey other (List.mem_cons_of_mem first hmem)
      rw [List.map_cons]
      by_cases hfirst : first = item
      · subst hfirst
        rw [List.count_cons_self, List.count_cons_self, ih hrest]
      · have hne : key first ≠ key item := fun heq => hfirst (hkey first List.mem_cons_self heq)
        rw [List.count_cons_of_ne hne, List.count_cons_of_ne hfirst, ih hrest]

end Stim.Counted
