import Mathlib.Data.List.Basic

/-!
# Reading a list at a position

What a reader finds at a position is stated as `data.drop pos = front ++ rest`: `front` is what it
reads there, and `rest` is what stands behind.
-/

namespace Stim.Reading

variable {α : Type} {data front rest : List α} {pos : Nat} {a : α}

theorem drop_behind (h : data.drop pos = front ++ rest) :
    data.drop (pos + front.length) = rest := by
  rw [← List.drop_drop, h, List.drop_left]

theorem drop_succ (h : data.drop pos = a :: rest) : data.drop (pos + 1) = rest := by
  rw [← List.drop_drop, h]
  rfl

theorem getElem?_of_drop (h : data.drop pos = a :: rest) : data[pos]? = some a := by
  rw [← List.head?_drop, h]
  rfl

theorem slice_of_drop (h : data.drop pos = front ++ rest) :
    (data.take (pos + front.length)).drop pos = front := by
  rw [List.drop_take, h, Nat.add_sub_cancel_left, List.take_left]

end Stim.Reading
