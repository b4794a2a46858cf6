import Mathlib.Data.Nat.Init
import Mathlib.Tactic.ByContra

/-!
# Episodes along a run

A run notifies at some of its steps and remembers it in a flag.  Where the flag outlives every
step that does not end the episode, two notifications have the end of an episode between them.
-/

namespace Stim.Episodes

variable (flag notified : Nat → Prop) {ended : Nat → Prop} {i j : Nat}

/-- What holds after step `i` and is kept by every step before `j` holds at `j`. -/
theorem holds_through (hstart : flag (i + 1)) (hkeep : ∀ k, i < k → k < j → flag k → flag (k + 1))
    (hij : i < j) : flag j := by
  induction j, hij using Nat.le_induction with
  | base => exact hstart
  | succ n hn ih =>
      exact hkeep n hn (Nat.lt_succ_self n) (ih fun k hik hkn => hkeep k hik (Nat.lt_succ_of_lt hkn))

theorem exists_ended_le (hset : notified i → flag (i + 1))
    (hkeep : ∀ k, i < k → k < j → flag k → ¬ ended k → flag (k + 1))
    (honce : notified j → flag j → ended j) (hij : i < j) (hi : notified i) (hj : notified j) :
    ∃ k, i < k ∧ k ≤ j ∧ ended k := by
  by_contra hnone
  have hflag : flag j := holds_through flag (hset hi) (fun k hik hkj hk =>
    hkeep k hik hkj hk fun hended => hnone ⟨k, hik, Nat.le_of_lt hkj, hended⟩) hij
  exact hnone ⟨j, hij, Nat.le_refl j, honce hj hflag⟩

theorem exists_ended_lt (hset : notified i → flag (i + 1))
    (hkeep : ∀ k, i < k → k < j → flag k → ¬ ended k → flag (k + 1))
    (honce : notified j → ¬ flag j) (hij : i < j) (hi : notified i) (hj : notified j) :
    ∃ k, i < k ∧ k < j ∧ ended k := by
  by_contra hnone
  refine honce hj (holds_through flag (hset hi) (fun k hik hkj hk => ?_) hij)
  exact hkeep k hik hkj hk fun hended => hnone ⟨k, hik, hkj, hended⟩

end Stim.Episodes
