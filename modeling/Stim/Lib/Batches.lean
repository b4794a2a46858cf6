import Mathlib.Data.List.Range

/-!
# Cutting a list into parts

`batches` fills a part until its weight reaches a limit and then starts the next one; `chunks`
cuts at the multiples of a fixed size.  Neither loses or reorders anything, and both give an
empty list one empty part.
-/

namespace Stim

universe u

variable {α : Type u}

/-- The parts of `rest`, the first of which already holds `part` of weight `load`. -/
def batchesFrom (weight : α → Nat) (limit : Nat) (load : Nat) (part : List α) :
    List α → List (List α)
  | [] => [part]
  | a :: rest =>
      if part = [] ∨ load < limit then
        batchesFrom weight limit (load + weight a) (part ++ [a]) rest
      else part :: batchesFrom weight limit (weight a) [a] rest

def batches (weight : α → Nat) (limit : Nat) (items : List α) : List (List α) :=
  batchesFrom weight limit 0 [] items

def chunks (size : Nat) (items : List α) : List (List α) :=
  (List.range (max 1 ((items.length + size - 1) / size))).map fun i =>
    (items.drop (i * size)).take size

section Batches

variable {weight : α → Nat} {limit : Nat}

theorem flatten_batchesFrom (items : List α) :
    ∀ (load : Nat) (part : List α),
      (batchesFrom weight limit load part items).flatten = part ++ items := by
  induction items with
  | nil =>
      intro load part
      simp [batchesFrom]
  | cons a rest ih =>
      intro load part
      unfold batchesFrom
      split
      · rw [ih, List.append_assoc, List.singleton_append]
      · rw [List.flatten_cons, ih, List.singleton_append]

theorem batchesFrom_ne_nil (items : List α) :
    ∀ (load : Nat) (part : List α), batchesFrom weight limit load part items ≠ [] := by
  induction items with
  | nil =>
      intro load part
      simp [batchesFrom]
  | cons a rest ih =>
      intro load part
      unfold batchesFrom
      split
      · exact ih _ _
      · simp

theorem flatten_batches (items : List α) : (batches weight limit items).flatten = items :=
  flatten_batchesFrom items 0 []

theorem batches_ne_nil (items : List α) : batches weight limit items ≠ [] :=
  batchesFrom_ne_nil items 0 []

end Batches

section Chunks

variable {size : Nat} {items : List α}

/-- The first `count` chunks hold the first `count * size` items. -/
theorem flatten_chunks_range (count : Nat) :
    ((List.range count).map fun i => (items.drop (i * size)).take size).flatten =
      items.take (count * size) := by
  induction count with
  | zero => simp
  | succ count ih =>
      rw [List.range_succ, List.map_append, List.flatten_append, ih, Nat.succ_mul, List.take_add]
      simp

theorem flatten_chunks (hSize : 0 < size) : (chunks size items).flatten = items := by
  unfold chunks
  rw [flatten_chunks_range, List.take_of_length_le]
  have hCeil := Nat.lt_div_mul_add (a := items.length + size - 1) hSize
  have hMax : (items.length + size - 1) / size * size ≤
      max 1 ((items.length + size - 1) / size) * size :=
    Nat.mul_le_mul_right _ (Nat.le_max_right _ _)
  omega

/-- Only the first chunk can be empty, and only for an empty list. -/
theorem chunks_eq_cons (items : List α) (hSize : 0 < size) :
    ∃ first rest, chunks size items = first :: rest ∧ ∀ chunk ∈ rest, chunk ≠ [] := by
  unfold chunks
  obtain ⟨more, hMore⟩ := Nat.exists_eq_add_of_le'
    (Nat.le_max_left 1 ((items.length + size - 1) / size))
  rw [hMore, List.range_succ_eq_map, List.map_cons, List.map_map]
  refine ⟨_, _, rfl, ?_⟩
  intro chunk hChunk
  obtain ⟨i, hi, rfl⟩ := List.mem_map.mp hChunk
  rw [List.mem_range] at hi
  -- a chunk after the first one starts before the end
  have hCount : i + 2 ≤ (items.length + size - 1) / size := by omega
  have hStart := (Nat.le_div_iff_mul_le hSize).mp hCount
  rw [Nat.add_mul] at hStart
  intro hEmpty
  have hZero := congrArg List.length hEmpty
  simp only [Function.comp_apply, Nat.succ_eq_add_one, Nat.add_mul, List.length_take,
    List.length_drop, List.length_nil] at hZero
  omega

end Chunks

end Stim
