import Mathlib.Data.List.Basic

/-!
# Absorbing folds

A fold absorbs an item when taking it leaves the value as it is.  Where an item that was taken
stays absorbed, the end of a list can be taken again.
-/

namespace Stim.Absorbing

variable {σ α : Type} {f : σ → α → σ} {absorbed : σ → α → Prop}

theorem absorbed_foldl (hkeep : ∀ s a b, absorbed s a → absorbed (f s b) a) {s : σ} {a : α}
    (h : absorbed s a) (items : List α) : absorbed (items.foldl f s) a := by
  induction items generalizing s with
  | nil => exact h
  | cons b items ih => exact ih (hkeep s a b h)

theorem absorbed_of_mem (hself : ∀ s a, absorbed (f s a) a)
    (hkeep : ∀ s a b, absorbed s a → absorbed (f s b) a) {s : σ} {a : α} {items : List α}
    (h : a ∈ items) : absorbed (items.foldl f s) a := by
  obtain ⟨before, after, rfl⟩ := List.append_of_mem h
  rw [List.foldl_append]
  exact absorbed_foldl hkeep (hself _ a) after

theorem foldl_absorbed (hstay : ∀ s a, absorbed s a → f s a = s) {s : σ} {items : List α}
    (h : ∀ a ∈ items, absorbed s a) : items.foldl f s = s := by
  induction items with
  | nil => rfl
  | cons a items ih =>
      rw [List.foldl_cons, hstay s a (h a List.mem_cons_self)]
      exact ih fun b hb => h b (List.mem_cons_of_mem a hb)

/-- Items that were taken last can be taken again. -/
theorem foldl_again (hself : ∀ s a, absorbed (f s a) a)
    (hkeep : ∀ s a b, absorbed s a → absorbed (f s b) a)
    (hstay : ∀ s a, absorbed s a → f s a = s) (s : σ) (items again : List α) :
    again.foldl f ((items ++ again).foldl f s) = (items ++ again).foldl f s :=
  foldl_absorbed hstay fun _ ha =>
    absorbed_of_mem hself hkeep (List.mem_append_right items ha)

theorem foldl_resumed (hself : ∀ s a, absorbed (f s a) a)
    (hkeep : ∀ s a b, absorbed s a → absorbed (f s b) a)
    (hstay : ∀ s a, absorbed s a → f s a = s) (s : σ) (items again more : List α) :
    (again ++ more).foldl f ((items ++ again).foldl f s) =
      (items ++ again ++ more).foldl f s := by
  rw [List.foldl_append, foldl_again hself hkeep hstay, List.foldl_append (l := items ++ again)]

end Stim.Absorbing
