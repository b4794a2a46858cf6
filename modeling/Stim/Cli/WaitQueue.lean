import Mathlib.Data.List.Sort

/-!
# The wait queue

`packages/stim-cli/src/engine/wait-queue.ts`: the runs waiting for a resource, in
arrival order.  A ticket is a shared claim numbered after every waiter its run saw.
-/

namespace Stim.Cli

/-- A waiting run's claim: what `liveWaiters` and its callers read of it.  `run` and
`transaction` say who took it and in which admission transaction. -/
structure WaitTicket (D : Type) where
  claimId : String
  startedAt : String
  sequence : Nat
  device : D
  run : Nat
  transaction : Nat
  deriving DecidableEq

namespace WaitTicket

variable {D : Type}

/-- The comparator of `liveWaiters`. -/
def order : WaitTicket D → WaitTicket D → Ordering :=
  compareLex (compareOn sequence) (compareLex (compareOn startedAt) (compareOn claimId))

instance : Std.TransCmp (order (D := D)) :=
  inferInstanceAs (Std.TransCmp (compareLex _ (compareLex _ _)))

theorem order_swap (t u : WaitTicket D) : order u t = (order t u).swap :=
  Std.OrientedCmp.eq_swap

/-- The ticket comes first in the queue. -/
def Precedes (t u : WaitTicket D) : Prop := order t u = .lt

instance (t u : WaitTicket D) : Decidable (t.Precedes u) := inferInstanceAs (Decidable (_ = _))

def NotAfter (t u : WaitTicket D) : Prop := (order t u).isLE = true

instance : DecidableRel (NotAfter (D := D)) := fun _ _ => inferInstanceAs (Decidable (_ = _))

theorem precedes_of_sequence {t u : WaitTicket D} (h : t.sequence < u.sequence) : t.Precedes u := by
  have hCompare : compare t.sequence u.sequence = .lt := Nat.compare_eq_lt.mpr h
  simp [Precedes, order, compareLex, compareOn, hCompare]

instance : IsTrans (WaitTicket D) NotAfter := ⟨fun _ _ _ h h' => Std.TransCmp.isLE_trans h h'⟩

theorem notAfter_total (t u : WaitTicket D) : t.NotAfter u ∨ u.NotAfter t := by
  unfold NotAfter
  rw [order_swap t u]
  cases order t u <;> simp

instance : Std.Total (NotAfter (D := D)) := ⟨notAfter_total⟩

/-- Nothing comes both before and after a ticket. -/
theorem Precedes.not_notAfter {t u : WaitTicket D} (h : t.Precedes u) : ¬ u.NotAfter t := by
  unfold NotAfter
  rw [order_swap t u, h]
  decide

end WaitTicket

open WaitTicket

variable {D : Type}

/-- The runs waiting, in arrival order, from a listing of the claims. -/
def liveWaiters (listing : List (WaitTicket D)) : List (WaitTicket D) :=
  listing.insertionSort NotAfter

/-- The number of a ticket taken after the queue was read. -/
def nextSequence (waiters : List (WaitTicket D)) : Nat :=
  (waiters.map sequence).foldl max 0 + 1

/-- The waiters ahead of a ticket: all of them without one. -/
def ahead (waiters : List (WaitTicket D)) (ticket : Option (WaitTicket D)) :
    List (WaitTicket D) :=
  match ticket with
  | none => waiters
  | some ticket => match waiters.findIdx? fun holder => holder.claimId == ticket.claimId with
    | none => waiters
    | some mine => waiters.take mine

variable {t : WaitTicket D}

theorem mem_liveWaiters {listing : List (WaitTicket D)} :
    t ∈ liveWaiters listing ↔ t ∈ listing := List.mem_insertionSort _

theorem pairwise_liveWaiters (listing : List (WaitTicket D)) :
    (liveWaiters listing).Pairwise NotAfter := List.pairwise_insertionSort _ _

theorem lt_nextSequence {waiters : List (WaitTicket D)} (h : t ∈ waiters) :
    t.sequence < nextSequence waiters := by
  have hMax : ∀ (l : List Nat) (n m : Nat), (m ≤ n ∨ m ∈ l) → m ≤ l.foldl max n := by
    intro l
    induction l with
    | nil =>
        intro n m hm
        simpa using hm
    | cons k l ih =>
        intro n m hm
        refine ih (max n k) m ?_
        rcases hm with hm | hm
        · exact .inl (Nat.le_trans hm (Nat.le_max_left n k))
        · rcases List.mem_cons.mp hm with rfl | hm
          · exact .inl (Nat.le_max_right n m)
          · exact .inr hm
  exact Nat.lt_succ_of_le (hMax _ 0 _ (.inr (List.mem_map_of_mem h)))

/-- Every waiter that precedes a ticket is ahead of it. -/
theorem mem_ahead {waiters : List (WaitTicket D)} {ticket : Option (WaitTicket D)}
    (hSorted : waiters.Pairwise NotAfter) (hMem : t ∈ waiters)
    (hSole : ∀ u, ticket = some u → ∀ v ∈ waiters, v.claimId = u.claimId → v = u)
    (hPrecedes : ∀ u, ticket = some u → t.Precedes u) : t ∈ ahead waiters ticket := by
  unfold ahead
  cases ticket with
  | none => exact hMem
  | some u =>
      dsimp only
      cases hFind : waiters.findIdx? fun holder => holder.claimId == u.claimId with
      | none => exact hMem
      | some mine =>
          dsimp only
          obtain ⟨hLt, hClaim, -⟩ := List.findIdx?_eq_some_iff_getElem.mp hFind
          have hMine : waiters[mine] = u :=
            hSole u rfl _ (List.getElem_mem hLt) (by simpa using hClaim)
          obtain ⟨i, hi, rfl⟩ := List.mem_iff_getElem.mp hMem
          have hBefore : i < mine := by
            by_contra hNot
            rcases Nat.lt_or_eq_of_le (Nat.not_lt.mp hNot) with hAfter | rfl
            · have hSorted' := (List.pairwise_iff_getElem.mp hSorted) mine i hLt hi hAfter
              rw [hMine] at hSorted'
              exact (hPrecedes u rfl).not_notAfter hSorted'
            · have hSelf := hPrecedes u rfl
              rw [hMine] at hSelf
              exact hSelf.not_notAfter ((notAfter_total u u).elim id id)
          exact List.mem_take_iff_getElem.mpr ⟨i, by omega, rfl⟩

end Stim.Cli
