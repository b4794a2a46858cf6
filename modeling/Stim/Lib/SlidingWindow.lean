import Mathlib.Data.List.Basic

/-!
# Sliding windows

A limiter keeps the times it has admitted, forgets those a window ago and admits another one only
while few are left.  No window then holds more than it admits.
-/

namespace Stim.SlidingWindow

variable {window now past : Int} {most : Nat} {times : List Int}

/-- The times less than a window ago. -/
def recent (window now : Int) (times : List Int) : List Int :=
  times.filter fun time => decide (now - time < window)

/-- The times in the window that starts at `start`. -/
def within (window start : Int) (times : List Int) : List Int :=
  times.filter fun time => decide (start ≤ time ∧ time < start + window)

/-- No window holds more than `most` times. -/
def Bounded (window : Int) (most : Nat) (times : List Int) : Prop :=
  ∀ start, (within window start times).length ≤ most

/-- What was forgotten earlier would be forgotten now. -/
theorem recent_recent (h : past ≤ now) :
    recent window now (recent window past times) = recent window now times := by
  unfold recent
  rw [List.filter_filter]
  refine List.filter_congr fun time _ => ?_
  rw [← Bool.decide_and]
  exact decide_eq_decide.mpr ⟨fun h => h.1, fun hRecent => ⟨hRecent, by omega⟩⟩

theorem recent_append (times more : List Int) :
    recent window now (times ++ more) = recent window now times ++ recent window now more :=
  List.filter_append ..

theorem bounded_nil : Bounded window most [] := fun _ => Nat.zero_le most

/-- A time admitted while fewer than `most` are recent. -/
theorem Bounded.push (h : Bounded window most times)
    (hRoom : (recent window now times).length < most) : Bounded window most (times ++ [now]) := by
  intro start
  unfold within
  rw [List.filter_append, List.length_append]
  by_cases hIn : start ≤ now ∧ now < start + window
  · -- every earlier time of this window is a recent one
    have hFewer : (within window start times).length ≤ (recent window now times).length := by
      refine List.Sublist.length_le (List.monotone_filter_right times ?_)
      intro time hTime
      have hWithin := of_decide_eq_true hTime
      exact decide_eq_true (by omega)
    have hOne : ([now].filter fun time => decide (start ≤ time ∧ time < start + window)).length ≤
        1 := List.length_filter_le ..
    unfold within at hFewer
    omega
  · rw [List.filter_cons_of_neg (by simpa using hIn), List.filter_nil]
    exact h start

end Stim.SlidingWindow
