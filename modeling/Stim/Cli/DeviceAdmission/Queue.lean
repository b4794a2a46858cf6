import Stim.Cli.DeviceAdmission.Invariant

/-!
# No overtaking in the device queue

Tickets are only taken under the admission lock, from a reading of the queue in the same
transaction.  So a run inside its transaction has read every ticket there is, and a new
ticket is numbered after all of them.
-/

namespace Stim.Cli

open World WaitTicket

variable {caps : Caps} {w w' : World}

/-- A run that has read the queue knows every ticket, and which one is its own. -/
structure Surveyed (w : World) (ticket : Option Ticket) (waiters : List Ticket) : Prop where
  sorted : waiters.Pairwise NotAfter
  complete : ∀ t ∈ w.tickets, t ∈ waiters
  sole : ∀ u, ticket = some u → ∀ v ∈ waiters, v.claimId = u.claimId → v = u

structure Queued (w : World) : Prop where
  /-- Claim ids are unique. -/
  claims : ∀ t ∈ w.tickets, ∀ u ∈ w.tickets, t.claimId = u.claimId → t = u
  past : ∀ t ∈ w.tickets, t.transaction ≤ w.transactions
  /-- A ticket of a later transaction has a higher number. -/
  numbered : ∀ t ∈ w.tickets, ∀ u ∈ w.tickets, t.transaction < u.transaction →
    t.sequence < u.sequence
  surveyed : ∀ r run waiters, w.runs r = some run → run.phase.queue = some waiters →
    Surveyed w run.ticket waiters

theorem queued_initial : Queued World.initial where
  claims := by simp [World.initial]
  past := by simp [World.initial]
  numbered := by simp [World.initial]
  surveyed := by simp [World.initial]

/-- Without a new ticket the queue only loses waiters. -/
theorem Queued.of_subset (h : Queued w) (hTickets : ∀ t ∈ w'.tickets, t ∈ w.tickets)
    (hTransactions : w.transactions ≤ w'.transactions)
    (hSurveyed : ∀ r run waiters, w'.runs r = some run → run.phase.queue = some waiters →
      (∃ before, w.runs r = some before ∧ before.ticket = run.ticket ∧
        before.phase.queue = some waiters) ∨ Surveyed w run.ticket waiters) : Queued w' where
  claims t ht u hu := h.claims t (hTickets t ht) u (hTickets u hu)
  past t ht := Nat.le_trans (h.past t (hTickets t ht)) hTransactions
  numbered t ht u hu := h.numbered t (hTickets t ht) u (hTickets u hu)
  surveyed r run waiters hRun hPhase := by
    have hBefore : Surveyed w run.ticket waiters := by
      rcases hSurveyed r run waiters hRun hPhase with ⟨before, hRun', hTicket, hPhase'⟩ | hNew
      · rw [← hTicket]
        exact h.surveyed r before waiters hRun' hPhase'
      · exact hNew
    exact ⟨hBefore.sorted, fun t ht => hBefore.complete t (hTickets t ht), hBefore.sole⟩

/-- A reading under the lock. -/
theorem surveyed_of_listing {r : Nat} {run : Run} {listing : List Ticket} (hSound : Sound w)
    (h : Queued w) (hRun : w.runs r = some run) (hListing : listing.Perm w.tickets) :
    Surveyed w run.ticket (liveWaiters listing) where
  sorted := pairwise_liveWaiters listing
  complete t ht := mem_liveWaiters.mpr (hListing.mem_iff.mpr ht)
  sole u hu v hv hClaim := by
    have hMine := (hSound.ticketed.2 r run u hRun hu).1
    exact h.claims v (hListing.mem_iff.mp (mem_liveWaiters.mp hv)) u hMine hClaim

theorem queued_ticket {r : Nat} {run : Run} {waiters : List Ticket} {env : Env} {ticket : Ticket}
    (hSound : Sound w) (h : Queued w) (hRun : w.runs r = some run)
    (hPhase : run.phase.queue = some waiters) (hFresh : ∀ t ∈ w.tickets, t.claimId ≠ env.claimId)
    (hTicket : ticket = ⟨env.claimId, env.startedAt, nextSequence waiters, run.device, r,
      w.transactions⟩) :
    Queued ({ w with tickets := w.tickets ++ [ticket], lock := none }.set r
      { run with ticket := some ticket, phase := .looping }) := by
  have hAfter : ∀ t ∈ w.tickets, t.sequence < ticket.sequence := by
    intro t ht
    rw [hTicket]
    exact lt_nextSequence ((h.surveyed r run waiters hRun hPhase).complete t ht)
  have hNow : ticket.transaction = w.transactions := by rw [hTicket]
  have hClaim : ∀ t ∈ w.tickets, t.claimId ≠ ticket.claimId := by
    rw [hTicket]
    exact hFresh
  refine ⟨?_, ?_, ?_, ?_⟩
  · intro t ht u hu hEq
    rcases List.mem_append.mp ht with ht | ht <;> rcases List.mem_append.mp hu with hu | hu
    · exact h.claims t ht u hu hEq
    · rw [List.mem_singleton.mp hu] at hEq
      exact absurd hEq (hClaim t ht)
    · rw [List.mem_singleton.mp ht] at hEq
      exact absurd hEq.symm (hClaim u hu)
    · rw [List.mem_singleton.mp ht, List.mem_singleton.mp hu]
  · intro t ht
    rcases List.mem_append.mp ht with ht | ht
    · exact h.past t ht
    · rw [List.mem_singleton.mp ht]
      exact Nat.le_of_eq hNow
  · intro t ht u hu hLt
    rcases List.mem_append.mp ht with ht | ht <;> rcases List.mem_append.mp hu with hu | hu
    · exact h.numbered t ht u hu hLt
    · rw [List.mem_singleton.mp hu]
      exact hAfter t ht
    · -- no ticket is from a later transaction
      rw [List.mem_singleton.mp ht, hNow] at hLt
      exact absurd (h.past u hu) (Nat.not_le.mpr hLt)
    · rw [List.mem_singleton.mp ht, List.mem_singleton.mp hu] at hLt
      exact absurd hLt (Nat.lt_irrefl _)
  · intro r' run' waiters' hRun' hPhase'
    rw [runs_set] at hRun'
    split at hRun'
    · cases hRun'
      cases hPhase'
    · rename_i hOther
      exact absurd (hSound.alone hRun' hRun (Phase.of_queue hPhase').1 (Phase.of_queue hPhase).1)
        hOther

theorem queued_step (hSound : Sound w) (h : Queued w) (hStep : Step caps w w') : Queued w' := by
  cases hStep with
  | ticket env hRun hPhase hNone hFresh hTicket =>
      exact queued_ticket hSound h hRun hPhase hFresh hTicket
  | @round r run listing hRun hPhase hListing =>
      refine h.of_subset (fun t ht => ht) (Nat.le_refl _) ?_
      intro r' run' waiters hRun' hPhase'
      rw [runs_set] at hRun'
      split at hRun'
      · cases hRun'
        cases hPhase'
        have hSurveyed := surveyed_of_listing hSound h hRun hListing
        exact .inr hSurveyed
      · exact .inl ⟨run', hRun', rfl, hPhase'⟩
  | _ =>
      refine h.of_subset (by grind [World.leave]) (by grind [World.leave]) ?_
      intro r' run' waiters hRun' hPhase'
      left
      grind [World.leave, Phase.queue]

/-! ## Admissions in order -/

def Phase.isAdmitted : Phase → Bool
  | admitted => true
  | _ => false

/-- The run has been let in. -/
def World.admitted (w : World) (r : Nat) : Bool := (w.runs r).any fun run => run.phase.isAdmitted

/-- A run is let in by a decision on the inventory it read. -/
theorem admitted_origin {r : Nat} (hStep : Step caps w w') (hBefore : w.admitted r = false)
    (hAfter : w'.admitted r = true) :
    ∃ run waiters inventory memory, w.runs r = some run ∧
      run.phase = .counted waiters (.ok inventory) ∧
      decideBoot caps run.device (ahead waiters run.ticket) memory (.ok inventory) = none := by
  obtain ⟨run', hRun', hPhase'⟩ := (Option.any_eq_true ..).mp hAfter
  simp only [World.admitted, Option.any_eq_false] at hBefore
  cases hStep with
  | _ => grind [World.leave, Phase.isAdmitted]

/-- In a listing that has both, the ticket of the earlier transaction comes first. -/
theorem before_of_precedes {listing : List Ticket} {t u : Ticket} (ht : t ∈ listing)
    (hu : u ∈ listing) (h : t.Precedes u) :
    (liveWaiters listing).idxOf t < (liveWaiters listing).idxOf u := by
  have hLt := List.idxOf_lt_length_of_mem (mem_liveWaiters.mpr ht)
  have hLu := List.idxOf_lt_length_of_mem (mem_liveWaiters.mpr hu)
  by_contra hNot
  rcases Nat.lt_or_eq_of_le (Nat.not_lt.mp hNot) with hAfter | hSame
  · have hSorted := List.pairwise_iff_getElem.mp (pairwise_liveWaiters listing) _ _ hLu hLt hAfter
    rw [List.getElem_idxOf, List.getElem_idxOf] at hSorted
    exact h.not_notAfter hSorted
  · have hEq : u = t := by
      rw [← List.getElem_idxOf hLu, ← List.getElem_idxOf hLt]
      simp only [hSame]
    rw [hEq] at h
    exact h.not_notAfter ((notAfter_total t t).elim id id)

/-- In every run: when a run is let in whose device is not already up, every live waiter
before it, or every one if it has no ticket, is held back by its platform's cap in the
inventory the decision read; and of two tickets the one of the earlier transaction is
ahead in every listing of the queue. -/
theorem no_overtaking {actions : List Action}
    (hRun : Machine.run (step caps) .initial actions = some w) :
    (∀ a w' r, step caps w a = some w' → w.admitted r = false → w'.admitted r = true →
      ∃ run waiters inventory, w.runs r = some run ∧
        run.phase = .counted waiters (.ok inventory) ∧
        (alreadyUp run.device inventory = false → ∀ t ∈ w.tickets,
          (∀ mine, run.ticket = some mine → t.Precedes mine) →
          0 < caps.platformMax t.device.platform ∧
            caps.platformMax t.device.platform ≤
              platformCount (inventoryKeys inventory) t.device.platform)) ∧
    (∀ t ∈ w.tickets, ∀ u ∈ w.tickets, t.transaction < u.transaction →
      ∀ listing, t ∈ listing → u ∈ listing →
        (liveWaiters listing).idxOf t < (liveWaiters listing).idxOf u) := by
  have hQueued : Sound w ∧ Queued w := by
    refine Machine.invariant_run (P := fun w => Sound w ∧ Queued w) ?_
      ⟨sound_initial, queued_initial⟩ hRun
    intro w a w' h hStep
    have hStep' := step_sound hStep
    exact ⟨sound_step h.1 hStep', queued_step h.1 h.2 hStep'⟩
  constructor
  · intro a w' r hStep hBefore hAfter
    obtain ⟨run, waiters, inventory, memory, hRun', hPhase, hDecide⟩ :=
      admitted_origin (step_sound hStep) hBefore hAfter
    refine ⟨run, waiters, inventory, hRun', hPhase, ?_⟩
    intro hUp t ht hMine
    have hSurveyed := hQueued.2.surveyed r run waiters hRun' (by rw [hPhase]; rfl)
    have hAhead := mem_ahead hSurveyed.sorted (hSurveyed.complete t ht) hSurveyed.sole hMine
    obtain ⟨_, ⟨⟩, hPassed⟩ := decideBoot_eq_none hDecide
    have hWalled := of_decide_eq_true ((hPassed hUp).2.2 t hAhead)
    -- the decision left its own device out, so the inventory has at least as many
    refine ⟨hWalled.1, Nat.le_trans hWalled.2 ?_⟩
    exact Finset.card_le_card (Finset.filter_subset_filter _ (Finset.erase_subset _ _))
  · intro t ht u hu hLt listing ht' hu'
    exact before_of_precedes ht' hu'
      (precedes_of_sequence (hQueued.2.numbered t ht u hu hLt))

section Runs

/-- At most one device of either platform. -/
def onePerPlatform : Caps := ⟨0, fun _ => 1, false⟩

def oneSimulator : DeviceInventory := ⟨[⟨"D", "stim-D", "Booted"⟩], ⟨[], []⟩, [], []⟩

def waitEnv (claimId : String) : Env := ⟨claimId, "2026-01-01T00:00:00.000Z", none, false⟩

/-- The ticket of run 1, taken in the second transaction. -/
def simulatorTicket : Ticket :=
  ⟨"a", "2026-01-01T00:00:00.000Z", 1, ⟨.ios, .created "A"⟩, 1, 2⟩

/-- One simulator is up, a run for another one waits, and a run for an emulator decides. -/
def walledWaiter : List Action :=
  [.start 0 .ios (some "D") false, .reuse 0 [] (waitEnv "") none, .acquire 0, .round 0 [],
    .read 0 (.ok ⟨[], ⟨[], []⟩, [], []⟩), .decide 0 (waitEnv ""), .admitRun 0, .boot 0, .leave 0,
    .start 1 .ios (some "A") false, .reuse 1 [] (waitEnv "") none, .acquire 1, .round 1 [],
    .read 1 (.ok oneSimulator), .decide 1 (waitEnv "a"),
    .start 2 .android (some "E") false, .reuse 2 [] (waitEnv "") none, .acquire 2,
    .round 2 [simulatorTicket], .read 2 (.ok oneSimulator)]

theorem no_overtaking_walledWaiter :
    ∃ w w', Machine.run (step onePerPlatform) .initial walledWaiter = some w ∧
      step onePerPlatform w (.decide 2 (waitEnv "")) = some w' ∧
      w.admitted 2 = false ∧ w'.admitted 2 = true ∧ w.tickets = [simulatorTicket] ∧
      ∃ run waiters inventory, w.runs 2 = some run ∧
        run.phase = .counted waiters (.ok inventory) ∧
        (alreadyUp run.device inventory = false → ∀ t ∈ w.tickets,
          (∀ mine, run.ticket = some mine → t.Precedes mine) →
          0 < onePerPlatform.platformMax t.device.platform ∧
            onePerPlatform.platformMax t.device.platform ≤
              platformCount (inventoryKeys inventory) t.device.platform) := by
  have hSome : ((Machine.run (step onePerPlatform) .initial walledWaiter).bind fun w =>
      (step onePerPlatform w (.decide 2 (waitEnv ""))).map fun w' =>
        (w.admitted 2, w'.admitted 2, w.tickets)) = some (false, true, [simulatorTicket]) := by
    decide +kernel
  obtain ⟨w, hRun, hStep⟩ := Option.bind_eq_some_iff.mp hSome
  obtain ⟨w', hStep, hEq⟩ := Option.map_eq_some_iff.mp hStep
  simp only [Prod.mk.injEq] at hEq
  obtain ⟨hBefore, hAfter, hTickets⟩ := hEq
  exact ⟨w, w', hRun, hStep, hBefore, hAfter, hTickets,
    (no_overtaking hRun).1 _ w' 2 hStep hBefore hAfter⟩

end Runs

end Stim.Cli
