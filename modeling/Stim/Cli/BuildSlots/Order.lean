import Stim.Cli.BuildSlots

/-!
# The order of the build queue

A run that reads the queue finds every older waiter ahead of it.  So when no other run took a
slot since it read the slots, there is a free slot for each of them at the moment it takes one.
-/

namespace Stim.Cli

open SlotWorld WaitTicket

variable {max : Nat} {w w' : SlotWorld}

/-! ## What a step does -/

/-- The steps of a run, before the clock ticks. -/
inductive SlotStep (max : Nat) (w : SlotWorld) : SlotWorld → Prop where
  | start {r} (hRun : w.runs r = none) : SlotStep max w (w.set r ⟨none, w.clock, .round⟩)
  | readQueue {r run listing} (hRun : w.runs r = some run) (hStage : run.stage = .round)
      (hListing : listing.Perm w.tickets) :
      SlotStep max w (w.set r
        { run with readAt := w.clock, stage := .listing (liveWaiters listing) })
  | turn {r run waiters} (hRun : w.runs r = some run) (hStage : run.stage = .listing waiters)
      (hTurn : (slotTurn (queuePosition waiters run.ticket) max
        (busySlots (w.listBuildSlots max) max)).claim = true) :
      SlotStep max w (w.set r { run with
        stage := .claiming waiters (queuePosition waiters run.ticket) 0 })
  | miss {r run waiters} (hRun : w.runs r = some run) (hStage : run.stage.queue = some waiters) :
      SlotStep max w (w.set r { run with stage := .missed waiters })
  | take {r run waiters position index} (hRun : w.runs r = some run)
      (hStage : run.stage = .claiming waiters position index) (hFree : w.held index = none) :
      SlotStep max w ({ w with held := Function.update w.held index (some r) }.set r
        { run with stage := .holding index })
  | held {r run waiters position index} (hRun : w.runs r = some run)
      (hStage : run.stage = .claiming waiters position index) :
      SlotStep max w (w.set r { run with stage := .claiming waiters position (index + 1) })
  | join {r run waiters ticket} (claimId startedAt : String) (hRun : w.runs r = some run)
      (hStage : run.stage = .missed waiters) (hNone : run.ticket = none)
      (hFresh : ∀ t ∈ w.tickets, t.claimId ≠ claimId)
      (hTicket : ticket = ⟨claimId, startedAt, nextSequence waiters, (), r, run.readAt⟩) :
      SlotStep max w ({ w with
        tickets := w.tickets ++ [ticket]
        publishedAt := Function.update w.publishedAt r w.clock }.set r
          { run with ticket := some ticket, stage := .round })
  | idle {r run stage held} (hRun : w.runs r = some run) (hStage : stage.queue = none)
      (hHeld : ∀ index q, held index = some q → w.held index = some q) :
      SlotStep max w ({ w with held := held }.set r { run with stage })
  | release {r run stage held} (hRun : w.runs r = some run) (hStage : stage.queue = none)
      (hHeld : ∀ index q, held index = some q → w.held index = some q) :
      SlotStep max w ({ w.release r with held := held }.set r { run with ticket := none, stage })

theorem held_vacate {r index q : Nat} (h : (w.vacate r).held index = some q) :
    w.held index = some q := by
  simp only [vacate] at h
  split at h
  · cases h
  · exact h

theorem slotAct_step {a : SlotAction} (h : slotAct max w a = some w') : SlotStep max w w' := by
  cases a with
  | start r =>
      simp only [slotAct] at h
      split at h
      · rename_i hRun
        cases h
        exact .start hRun
      · cases h
  | readQueue r listing =>
      obtain ⟨run, hRun, h⟩ := Option.bind_eq_some_iff.mp h
      split at h
      · rename_i hReady
        cases h
        exact .readQueue hRun hReady.1 hReady.2
      · cases h
  | readSlots r =>
      obtain ⟨run, hRun, h⟩ := Option.bind_eq_some_iff.mp h
      unfold SlotWorld.turn at h
      split at h
      · rename_i waiters hStage
        dsimp only at h
        split at h
        · rename_i hTurn
          cases h
          exact .turn hRun hStage hTurn
        · cases h
          exact .miss hRun (by rw [hStage]; rfl)
      · cases h
  | attempt r =>
      obtain ⟨run, hRun, h⟩ := Option.bind_eq_some_iff.mp h
      unfold SlotWorld.attempt at h
      split at h
      · rename_i waiters position index hStage
        split at h
        · split at h
          · rename_i hFree
            cases h
            exact .take hRun hStage hFree
          · cases h
            exact .held hRun hStage
        · cases h
          exact .miss hRun (by rw [hStage]; rfl)
      · cases h
  | join r claimId startedAt =>
      obtain ⟨run, hRun, h⟩ := Option.bind_eq_some_iff.mp h
      unfold SlotWorld.join at h
      split at h
      · rename_i waiters hStage hNone
        split at h
        · cases h
        · rename_i hFresh
          cases h
          refine .join claimId startedAt hRun hStage hNone ?_ rfl
          intro t ht hEq
          exact hFresh (List.any_eq_true.mpr ⟨t, ht, by simpa using hEq⟩)
      · cases h
  | sleep r =>
      obtain ⟨run, hRun, h⟩ := Option.bind_eq_some_iff.mp h
      split at h
      · cases h
        exact .idle hRun rfl fun _ _ => id
      · cases h
  | leave r =>
      obtain ⟨run, hRun, h⟩ := Option.bind_eq_some_iff.mp h
      split at h
      · cases h
      · cases h
        exact .release hRun rfl fun _ _ => id
  | releaseTicket r =>
      obtain ⟨run, hRun, h⟩ := Option.bind_eq_some_iff.mp h
      split at h
      · rename_i index hStage
        cases h
        exact .release hRun (by rw [hStage]; rfl) fun _ _ => id
      · cases h
  | releaseSlot r =>
      obtain ⟨run, hRun, h⟩ := Option.bind_eq_some_iff.mp h
      split at h
      · cases h
        exact .idle hRun rfl fun _ _ => held_vacate
      · cases h
  | die r =>
      obtain ⟨run, hRun, h⟩ := Option.bind_eq_some_iff.mp h
      cases h
      exact .release hRun rfl fun _ _ => held_vacate

/-! ## The invariant -/

/-- A run that has read the queue has found every waiter published before, and knows which
one is its own. -/
structure QueueRead (w : SlotWorld) (run : SlotRun) (waiters : List BuildTicket) : Prop where
  sorted : waiters.Pairwise NotAfter
  complete : ∀ t ∈ w.tickets, w.publishedAt t.run < run.readAt → t ∈ waiters
  sole : ∀ u, run.ticket = some u → ∀ v ∈ waiters, v.claimId = u.claimId → v = u

structure Ordered (w : SlotWorld) : Prop where
  nodup : w.tickets.Nodup
  claims : ∀ t ∈ w.tickets, ∀ u ∈ w.tickets, t.claimId = u.claimId → t = u
  ticketed : ∀ t ∈ w.tickets, ∃ run, w.runs t.run = some run ∧ run.ticket = some t
  own : ∀ r run t, w.runs r = some run → run.ticket = some t →
    t ∈ w.tickets ∧ t.run = r ∧ t.transaction ≤ run.readAt
  past : ∀ t ∈ w.tickets, w.publishedAt t.run < w.clock
  read : ∀ r run, w.runs r = some run → run.readAt ≤ w.clock
  /-- A waiter published before another read the queue has a lower number. -/
  numbered : ∀ t ∈ w.tickets, ∀ u ∈ w.tickets, w.publishedAt t.run < u.transaction →
    t.sequence < u.sequence
  surveyed : ∀ r run waiters, w.runs r = some run → run.stage.queue = some waiters →
    QueueRead w run waiters
  position : ∀ r run waiters position index, w.runs r = some run →
    run.stage = .claiming waiters position index → position = queuePosition waiters run.ticket

theorem ordered_initial : Ordered SlotWorld.initial where
  nodup := List.nodup_nil
  claims := by simp [SlotWorld.initial]
  ticketed := by simp [SlotWorld.initial]
  own := by simp [SlotWorld.initial]
  past := by simp [SlotWorld.initial]
  read := by simp [SlotWorld.initial]
  numbered := by simp [SlotWorld.initial]
  surveyed := by simp [SlotWorld.initial]
  position := by simp [SlotWorld.initial]

@[simp] theorem SlotWorld.runs_set (w : SlotWorld) (r r' : Nat) (run : SlotRun) :
    (w.set r run).runs r' = if r' = r then some run else w.runs r' := by
  simp [SlotWorld.set, Function.update_apply]

/-- The tick of the clock. -/
def SlotWorld.tick (w : SlotWorld) : SlotWorld := { w with clock := w.clock + 1 }

variable {r : Nat}

/-- A run is the one that moved, or is as it was. -/
theorem run_of_set {r' : Nat} {run run' : SlotRun} (h : (w.set r run).tick.runs r' = some run') :
    (r' = r ∧ run' = run) ∨ (r' ≠ r ∧ w.runs r' = some run') := by
  change (w.set r run).runs r' = some run' at h
  rw [runs_set] at h
  split at h
  · rename_i hSame
    exact .inl ⟨hSame, (Option.some.inj h).symm⟩
  · rename_i hOther
    exact .inr ⟨hOther, h⟩

variable {run : SlotRun}

/-- A run moves on.  It may release its ticket, and takes none. -/
theorem Ordered.move {held : Nat → Option Nat} {tickets : List BuildTicket} (h : Ordered w)
    (hSub : tickets.Sublist w.tickets) (hOthers : ∀ t ∈ w.tickets, t.run ≠ r → t ∈ tickets)
    (hTicket : ∀ t, run.ticket = some t → t ∈ tickets ∧ t.run = r ∧ t.transaction ≤ run.readAt)
    (hMine : ∀ t ∈ tickets, t.run = r → run.ticket = some t) (hRead : run.readAt ≤ w.clock)
    (hQueue : ∀ waiters, run.stage.queue = some waiters → QueueRead w run waiters)
    (hPosition : ∀ waiters position index, run.stage = .claiming waiters position index →
      position = queuePosition waiters run.ticket) :
    Ordered ({ w with held := held, tickets := tickets }.set r run).tick where
  nodup := h.nodup.sublist hSub
  claims t ht u hu := h.claims t (hSub.subset ht) u (hSub.subset hu)
  ticketed t ht := by
    show ∃ run', (SlotWorld.set _ r run).runs t.run = some run' ∧ _
    rw [runs_set]
    split
    · rename_i hRun
      exact ⟨run, rfl, hMine t ht hRun⟩
    · exact h.ticketed t (hSub.subset ht)
  own r' run' t hRun hMem := by
    rcases run_of_set hRun with ⟨rfl, rfl⟩ | ⟨hOther, hRun⟩
    · exact hTicket t hMem
    · obtain ⟨hIn, hOwner, hBefore⟩ := h.own r' run' t hRun hMem
      exact ⟨hOthers t hIn (hOwner ▸ hOther), hOwner, hBefore⟩
  past t ht := Nat.lt_succ_of_lt (h.past t (hSub.subset ht))
  read r' run' hRun := by
    rcases run_of_set hRun with ⟨rfl, rfl⟩ | ⟨-, hRun⟩
    · exact Nat.le_succ_of_le hRead
    · exact Nat.le_succ_of_le (h.read r' run' hRun)
  numbered t ht u hu := h.numbered t (hSub.subset ht) u (hSub.subset hu)
  surveyed r' run' waiters hRun hStage := by
    have hBefore : QueueRead w run' waiters := by
      rcases run_of_set hRun with ⟨rfl, rfl⟩ | ⟨-, hRun⟩
      · exact hQueue waiters hStage
      · exact h.surveyed r' run' waiters hRun hStage
    exact ⟨hBefore.sorted, fun t ht => hBefore.complete t (hSub.subset ht), hBefore.sole⟩
  position r' run' waiters position index hRun hStage := by
    rcases run_of_set hRun with ⟨rfl, rfl⟩ | ⟨-, hRun⟩
    · exact hPosition waiters position index hStage
    · exact h.position r' run' waiters position index hRun hStage

/-- A run that keeps its ticket. -/
theorem Ordered.keep {run before : SlotRun} {held : Nat → Option Nat} (h : Ordered w)
    (hRun : w.runs r = some before) (hTicket : run.ticket = before.ticket)
    (hRead : run.readAt = before.readAt)
    (hQueue : ∀ waiters, run.stage.queue = some waiters → before.stage.queue = some waiters)
    (hPosition : ∀ waiters position index, run.stage = .claiming waiters position index →
      position = queuePosition waiters before.ticket) :
    Ordered ({ w with held := held }.set r run).tick := by
  refine h.move (List.Sublist.refl _) (fun t ht _ => ht) ?_ ?_ ?_ ?_ ?_
  · intro t ht
    rw [hRead]
    exact h.own r before t hRun (hTicket ▸ ht)
  · intro t ht hOwner
    obtain ⟨holder, hHolder, hHolds⟩ := h.ticketed t ht
    rw [hOwner, hRun] at hHolder
    cases hHolder
    rw [hTicket, hHolds]
  · rw [hRead]
    exact h.read r before hRun
  · intro waiters hStage
    have hBefore := h.surveyed r before waiters hRun (hQueue waiters hStage)
    exact ⟨hBefore.sorted, hRead ▸ hBefore.complete, hTicket ▸ hBefore.sole⟩
  · rw [hTicket]
    exact hPosition

variable {waiters : List BuildTicket}

/-- A ticket is numbered after every waiter its run has read. -/
theorem ordered_join {ticket : BuildTicket} {claimId startedAt : String} (h : Ordered w)
    (hRun : w.runs r = some run) (hStage : run.stage = .missed waiters)
    (hNone : run.ticket = none) (hFresh : ∀ t ∈ w.tickets, t.claimId ≠ claimId)
    (hTicket : ticket = ⟨claimId, startedAt, nextSequence waiters, (), r, run.readAt⟩) :
    Ordered ({ w with
      tickets := w.tickets ++ [ticket]
      publishedAt := Function.update w.publishedAt r w.clock }.set r
        { run with ticket := some ticket, stage := .round }).tick := by
  have hSurvey := h.surveyed r run waiters hRun (by rw [hStage]; rfl)
  have hReadPast := h.read r run hRun
  have hOthers : ∀ t ∈ w.tickets, t.run ≠ r := by
    intro t ht hOwner
    obtain ⟨holder, hHolder, hHolds⟩ := h.ticketed t ht
    rw [hOwner, hRun] at hHolder
    cases hHolder
    rw [hNone] at hHolds
    cases hHolds
  have hPublished : ∀ t ∈ w.tickets,
      Function.update w.publishedAt r w.clock t.run = w.publishedAt t.run := fun t ht =>
    Function.update_of_ne (hOthers t ht) ..
  have hClaim : ticket.claimId = claimId := by rw [hTicket]
  have hOwner : ticket.run = r := by rw [hTicket]
  have hWhen : ticket.transaction = run.readAt := by rw [hTicket]
  have hNow : Function.update w.publishedAt r w.clock ticket.run = w.clock := by
    rw [hOwner, Function.update_self]
  have hNew : ticket ∉ w.tickets := fun hMem => hOthers ticket hMem hOwner
  refine ⟨?_, ?_, ?_, ?_, ?_, ?_, ?_, ?_, ?_⟩
  · exact List.nodup_append.mpr ⟨h.nodup, List.nodup_singleton _, by
      rintro t ht _ hu rfl
      exact hNew (List.mem_singleton.mp hu ▸ ht)⟩
  · intro t ht u hu hEq
    rcases List.mem_append.mp ht with ht | ht <;> rcases List.mem_append.mp hu with hu | hu
    · exact h.claims t ht u hu hEq
    · rw [List.mem_singleton.mp hu, hClaim] at hEq
      exact absurd hEq (hFresh t ht)
    · rw [List.mem_singleton.mp ht, hClaim] at hEq
      exact absurd hEq.symm (hFresh u hu)
    · rw [List.mem_singleton.mp ht, List.mem_singleton.mp hu]
  · intro t ht
    show ∃ run', (SlotWorld.set _ r _).runs t.run = some run' ∧ _
    rw [runs_set]
    rcases List.mem_append.mp ht with ht | ht
    · rw [if_neg (hOthers t ht)]
      exact h.ticketed t ht
    · rw [List.mem_singleton.mp ht, if_pos hOwner]
      exact ⟨_, rfl, rfl⟩
  · intro r' run' t hRun' hMem
    rcases run_of_set hRun' with ⟨rfl, rfl⟩ | ⟨-, hRun'⟩
    · cases hMem
      exact ⟨List.mem_append_right _ (List.mem_singleton_self _), hOwner, hWhen.le⟩
    · obtain ⟨hIn, hRest⟩ := h.own r' run' t hRun' hMem
      exact ⟨List.mem_append_left _ hIn, hRest⟩
  · intro t ht
    show Function.update w.publishedAt r w.clock t.run < w.clock + 1
    rcases List.mem_append.mp ht with ht | ht
    · rw [hPublished t ht]
      exact Nat.lt_succ_of_lt (h.past t ht)
    · rw [List.mem_singleton.mp ht, hNow]
      exact Nat.lt_succ_self _
  · intro r' run' hRun'
    rcases run_of_set hRun' with ⟨rfl, rfl⟩ | ⟨-, hRun'⟩
    · exact Nat.le_succ_of_le hReadPast
    · exact Nat.le_succ_of_le (h.read r' run' hRun')
  · intro t ht u hu hLt
    change Function.update w.publishedAt r w.clock t.run < u.transaction at hLt
    -- a reading made so far is older than the new ticket
    have hLate : t = ticket → ¬ w.clock < u.transaction := by
      rintro -
      rcases List.mem_append.mp hu with hu | hu
      · obtain ⟨holder, hHolder, hHolds⟩ := h.ticketed u hu
        have hBefore := (h.own _ holder u hHolder hHolds).2.2
        exact Nat.not_lt.mpr (hBefore.trans (h.read _ holder hHolder))
      · rw [List.mem_singleton.mp hu, hWhen]
        exact Nat.not_lt.mpr hReadPast
    rcases List.mem_append.mp ht with ht | ht
    · rw [hPublished t ht] at hLt
      rcases List.mem_append.mp hu with hu | hu
      · exact h.numbered t ht u hu hLt
      · rw [List.mem_singleton.mp hu, hWhen] at hLt
        rw [List.mem_singleton.mp hu, hTicket]
        exact lt_nextSequence (hSurvey.complete t ht hLt)
    · have hEq := List.mem_singleton.mp ht
      rw [hEq, hNow] at hLt
      exact absurd hLt (hLate hEq)
  · intro r' run' waiters' hRun' hStage'
    rcases run_of_set hRun' with ⟨rfl, rfl⟩ | ⟨-, hRun'⟩
    · cases hStage'
    · have hBefore := h.surveyed r' run' waiters' hRun' hStage'
      refine ⟨hBefore.sorted, ?_, hBefore.sole⟩
      intro t ht hLt
      change Function.update w.publishedAt r w.clock t.run < run'.readAt at hLt
      rcases List.mem_append.mp ht with ht | ht
      · rw [hPublished t ht] at hLt
        exact hBefore.complete t ht hLt
      · rw [List.mem_singleton.mp ht, hNow] at hLt
        exact absurd (h.read r' run' hRun') (Nat.not_le.mpr hLt)
  · intro r' run' waiters' position index hRun' hStage'
    rcases run_of_set hRun' with ⟨rfl, rfl⟩ | ⟨-, hRun'⟩
    · cases hStage'
    · exact h.position r' run' waiters' position index hRun' hStage'

theorem ordered_step (h : Ordered w) (hStep : SlotStep max w w') : Ordered w'.tick := by
  cases hStep with
  | @start r hRun =>
      refine h.move (List.Sublist.refl _) (fun t ht _ => ht) nofun ?_ le_rfl nofun nofun
      intro t ht hOwner
      obtain ⟨holder, hHolder, -⟩ := h.ticketed t ht
      rw [hOwner, hRun] at hHolder
      cases hHolder
  | @readQueue r run listing hRun hStage hListing =>
      refine h.move (List.Sublist.refl _) (fun t ht _ => ht) ?_ ?_ le_rfl ?_ nofun
      · intro t ht
        obtain ⟨hIn, hOwner, hBefore⟩ := h.own r run t hRun ht
        exact ⟨hIn, hOwner, hBefore.trans (h.read r run hRun)⟩
      · intro t ht hOwner
        obtain ⟨holder, hHolder, hHolds⟩ := h.ticketed t ht
        rw [hOwner, hRun] at hHolder
        cases hHolder
        exact hHolds
      · rintro waiters ⟨⟩
        refine ⟨pairwise_liveWaiters listing, ?_, ?_⟩
        · exact fun t ht _ => mem_liveWaiters.mpr (hListing.mem_iff.mpr ht)
        · intro u hu v hv hClaim
          exact h.claims v (hListing.mem_iff.mp (mem_liveWaiters.mp hv)) u
            (h.own r run u hRun hu).1 hClaim
  | @turn r run waiters hRun hStage hTurn =>
      refine h.keep hRun rfl rfl ?_ ?_
      · rintro _ ⟨⟩
        rw [hStage]
        rfl
      · rintro _ _ _ ⟨⟩
        rfl
  | @miss r run waiters hRun hStage =>
      refine h.keep hRun rfl rfl ?_ nofun
      rintro _ ⟨⟩
      exact hStage
  | take hRun hStage hFree => exact h.keep hRun rfl rfl nofun nofun
  | @held r run waiters position index hRun hStage =>
      refine h.keep hRun rfl rfl ?_ ?_
      · rintro _ ⟨⟩
        rw [hStage]
        rfl
      · rintro _ _ _ ⟨⟩
        exact h.position r run waiters position index hRun hStage
  | join claimId startedAt hRun hStage hNone hFresh hTicket =>
      exact ordered_join h hRun hStage hNone hFresh hTicket
  | @idle r run stage held hRun hStage hHeld =>
      refine h.keep hRun rfl rfl ?_ ?_
      · intro waiters hQueue
        rw [show stage.queue = some waiters from hQueue] at hStage
        cases hStage
      · intro waiters position index hClaiming
        rw [show stage = _ from hClaiming] at hStage
        cases hStage
  | @release r run stage held hRun hStage hHeld =>
      refine h.move List.filter_sublist ?_ nofun ?_ (h.read r run hRun) ?_ ?_
      · exact fun t ht hOther => List.mem_filter.mpr ⟨ht, decide_eq_true hOther⟩
      · intro t ht hOwner
        exact absurd hOwner (of_decide_eq_true (List.mem_filter.mp ht).2)
      · intro waiters hQueue
        rw [show stage.queue = some waiters from hQueue] at hStage
        cases hStage
      · intro waiters position index hClaiming
        rw [show stage = _ from hClaiming] at hStage
        cases hStage

theorem ordered_run {actions : List SlotAction}
    (hRun : Machine.run (slotStep max) .initial actions = some w) : Ordered w := by
  refine Machine.invariant_run ?_ ordered_initial hRun
  intro v a u hOrdered hStep
  obtain ⟨u', hAct, rfl⟩ := Option.map_eq_some_iff.mp hStep
  exact ordered_step hOrdered (slotAct_step hAct)

/-! ## Turns -/

/-- Every older waiter is ahead of a run that has read the queue. -/
theorem older_le_ahead (h : Ordered w) (hRun : w.runs r = some run)
    (hStage : run.stage.queue = some waiters) :
    (w.olderWaiters run).length ≤ (ahead waiters run.ticket).length := by
  have hRead := h.surveyed r run waiters hRun hStage
  refine List.Subperm.length_le (List.Nodup.subperm (h.nodup.filter _) ?_)
  intro t ht
  obtain ⟨hMem, hOlder⟩ := List.mem_filter.mp ht
  have hOlder := of_decide_eq_true hOlder
  unfold SlotRun.since at hOlder
  cases hTicket : run.ticket with
  | none =>
      rw [hTicket] at hOlder
      exact hRead.complete t hMem hOlder
  | some u =>
      rw [hTicket] at hOlder
      obtain ⟨hIn, -, hBefore⟩ := h.own r run u hRun hTicket
      refine mem_ahead hRead.sorted (hRead.complete t hMem (hOlder.trans_le hBefore)) ?_ ?_
      · rintro _ ⟨⟩
        exact hRead.sole u hTicket
      · rintro _ ⟨⟩
        exact precedes_of_sequence (h.numbered t hMem u hIn hOlder)

/-- A slot is free, or a reading shows it held. -/
theorem busy_add_free (w : SlotWorld) (max : Nat) :
    ((busySlots (w.listBuildSlots max) max).filter SlotReading.alive).length +
      (w.freeSlots max).length = max := by
  have hBusy : ((busySlots (w.listBuildSlots max) max).filter SlotReading.alive).length =
      ((List.range max).filter fun index => (w.held index).isSome).length := by
    rw [busySlots, listBuildSlots, List.filter_filter, List.filter_map, List.length_map]
    refine congrArg List.length (List.filter_congr ?_)
    intro index hIndex
    simp [List.mem_range.mp hIndex]
  have hSplit := List.length_eq_length_filter_add (l := List.range max)
    fun index => (w.held index).isSome
  rw [List.length_range] at hSplit
  have hFree : (w.freeSlots max).length =
      ((List.range max).filter fun index => !(w.held index).isSome).length := by
    simp [freeSlots]
  omega

/-- A pair in order is a sublist of a sorted list that has both. -/
theorem sublist_of_precedes {t u : BuildTicket} (hSorted : waiters.Pairwise NotAfter)
    (ht : t ∈ waiters) (hu : u ∈ waiters) (hPrecedes : t.Precedes u) : [t, u].Sublist waiters := by
  obtain ⟨before, after, rfl⟩ := List.append_of_mem ht
  refine (List.Sublist.cons_cons t (List.singleton_sublist.mpr ?_)).trans
    (List.sublist_append_right before _)
  rcases List.mem_append.mp hu with hu | hu
  · have hAfter := (List.pairwise_append.mp hSorted).2.2 u hu t (List.mem_cons_self ..)
    exact absurd hAfter hPrecedes.not_notAfter
  · rcases List.mem_cons.mp hu with rfl | hu
    · exact absurd ((notAfter_total u u).elim id id) hPrecedes.not_notAfter
    · exact hu

/-- No run other than `r` takes a slot. -/
def NoOtherTakes (max r : Nat) (w : SlotWorld) (a : SlotAction) : Prop :=
  ∀ w' index q, slotStep max w a = some w' → q ≠ r → w'.held index = some q →
    w.held index = some q

/-- A run that tries the slots has as many of them free as its position. -/
def TurnHolds (max r : Nat) (w : SlotWorld) : Prop :=
  ∀ run waiters position index, w.runs r = some run →
    run.stage = .claiming waiters position index → position ≤ (w.freeSlots max).length

theorem freeSlots_mono (max : Nat) (h : ∀ index q, w'.held index = some q → w.held index = some q) :
    (w.freeSlots max).length ≤ (w'.freeSlots max).length := by
  refine (List.monotone_filter_right _ fun index hFree => ?_).length_le
  rw [Option.isNone_iff_eq_none] at hFree ⊢
  by_contra hSome
  obtain ⟨q, hq⟩ := Option.ne_none_iff_exists'.mp hSome
  rw [h index q hq] at hFree
  cases hFree

theorem position_le_free {position : Nat}
    (h : (slotTurn position max (busySlots (w.listBuildSlots max) max)).claim = true) :
    position ≤ (w.freeSlots max).length := by
  have hClaim : position ≤ max -
      ((busySlots (w.listBuildSlots max) max).filter SlotReading.alive).length :=
    of_decide_eq_true h
  have hFree := busy_add_free w max
  omega

/-- A reading of the slots that lets a run claim finds as many slots free. -/
theorem turnHolds_of_read (h : slotStep max w (.readSlots r) = some w') : TurnHolds max r w' := by
  obtain ⟨u, hAct, rfl⟩ := Option.map_eq_some_iff.mp h
  obtain ⟨run, -, hTurn⟩ := Option.bind_eq_some_iff.mp hAct
  unfold SlotWorld.turn at hTurn
  split at hTurn
  · dsimp only at hTurn
    split at hTurn
    · rename_i hClaim
      cases hTurn
      intro run' waiters position index hRun hStage
      obtain ⟨-, rfl⟩ := (run_of_set hRun).resolve_right fun h => h.1 rfl
      cases hStage
      exact position_le_free hClaim
    · cases hTurn
      intro run' waiters position index hRun hStage
      obtain ⟨-, rfl⟩ := (run_of_set hRun).resolve_right fun h => h.1 rfl
      cases hStage
  · cases hTurn

theorem turnHolds_step {a : SlotAction} (h : TurnHolds max r w) (hTakes : NoOtherTakes max r w a)
    (hStep : slotStep max w a = some w') : TurnHolds max r w' := by
  have hOther := fun index q => hTakes w' index q hStep
  obtain ⟨u, hAct, rfl⟩ := Option.map_eq_some_iff.mp hStep
  -- the slots that were free are free, and a run that tries them has its turn
  have hMove : ∀ {v : SlotWorld} {r' : Nat} {run : SlotRun},
      (∀ index q, v.held index = some q → w.held index = some q) → v.runs = w.runs →
      (r' = r → ∀ waiters position index, run.stage = .claiming waiters position index →
        position ≤ (w.freeSlots max).length) → TurnHolds max r (v.set r' run).tick := by
    intro v r' run hHeld hRuns hMine run' waiters position index hRun hStage
    refine le_trans ?_ (freeSlots_mono max hHeld)
    rcases run_of_set hRun with ⟨hSame, rfl⟩ | ⟨-, hRun⟩
    · exact hMine hSame.symm waiters position index hStage
    · exact h run' waiters position index (hRuns ▸ hRun) hStage
  cases slotAct_step hAct with
  | start hRun => exact hMove (fun _ _ => id) rfl nofun
  | readQueue hRun hStage hListing => exact hMove (fun _ _ => id) rfl nofun
  | turn hRun hStage hTurn =>
      refine hMove (fun _ _ => id) rfl ?_
      rintro - _ _ _ ⟨⟩
      exact position_le_free hTurn
  | miss hRun hStage => exact hMove (fun _ _ => id) rfl nofun
  | @take r' run waiters position index hRun hStage hFree =>
      by_cases hSame : r' = r
      · intro run' waiters' position' index' hRun' hStage'
        obtain ⟨-, rfl⟩ := (run_of_set hRun').resolve_right fun h => h.1 hSame.symm
        cases hStage'
      · rw [hOther index r' hSame (Function.update_self ..)] at hFree
        cases hFree
  | @held r' run waiters position index hRun hStage =>
      refine hMove (fun _ _ => id) rfl ?_
      rintro rfl _ _ _ ⟨⟩
      exact h run waiters position index hRun hStage
  | join claimId startedAt hRun hStage hNone hFresh hTicket => exact hMove (fun _ _ => id) rfl nofun
  | @idle r' run stage held hRun hStage hHeld =>
      refine hMove hHeld rfl ?_
      rintro - waiters position index hClaiming
      rw [show stage = _ from hClaiming] at hStage
      cases hStage
  | @release r' run stage held hRun hStage hHeld =>
      refine hMove hHeld rfl ?_
      rintro - waiters position index hClaiming
      rw [show stage = _ from hClaiming] at hStage
      cases hStage

/-- A run that takes a slot leaves a free slot for every older waiter, when no other run took one
since it read the slots; and older waiters stay ahead in every reading of the queue. -/
theorem no_slot_overtaking {actions : List SlotAction}
    (hRun : Machine.run (slotStep max) .initial actions = some w) :
    (∀ r before after u, actions = before ++ .readSlots r :: after →
      Machine.run (slotStep max) .initial (before ++ [.readSlots r]) = some u →
      Machine.Meets (slotStep max) (NoOtherTakes max r) u after →
      ∀ run waiters position index w', w.runs r = some run →
        run.stage = .claiming waiters position index → w.held index = none →
        slotStep max w (.attempt r) = some w' → w'.held index = some r →
        (w.olderWaiters run).length < (w.freeSlots max).length) ∧
    (∀ t ∈ w.tickets, ∀ u ∈ w.tickets, w.publishedAt t.run < u.transaction →
      ∀ listing, listing.Perm w.tickets → [t, u].Sublist (liveWaiters listing)) := by
  have hOrdered := ordered_run hRun
  refine ⟨?_, ?_⟩
  · intro r before after u hActions hRead hAfter run waiters position index w' hSome hStage _ _ _
    rw [hActions, List.append_cons, Machine.run_append] at hRun
    obtain ⟨v, hFront, hBack⟩ := hRun
    obtain rfl : v = u := Option.some.inj (hFront.symm.trans hRead)
    obtain ⟨v', -, hLast⟩ := Machine.run_append.mp hRead
    obtain ⟨v'', hSlots, ⟨⟩⟩ := Machine.run_cons.mp hLast
    -- Behind the reading only slots are freed.
    have hHolds : TurnHolds max r w := Machine.invariant_run_meets
      (fun _ _ _ hTurn hTakes hStep => turnHolds_step hTurn hTakes hStep)
      (turnHolds_of_read hSlots) hBack hAfter
    have hPosition := hOrdered.position r run waiters position index hSome hStage
    have hAhead := older_le_ahead hOrdered hSome (by rw [hStage]; rfl : _ = some waiters)
    have hFree := hHolds run waiters position index hSome hStage
    rw [queuePosition_eq] at hPosition
    omega
  · intro t ht u hu hBefore listing hListing
    refine sublist_of_precedes (pairwise_liveWaiters listing)
      (mem_liveWaiters.mpr (hListing.mem_iff.mpr ht))
      (mem_liveWaiters.mpr (hListing.mem_iff.mpr hu)) ?_
    exact precedes_of_sequence (hOrdered.numbered t ht u hu hBefore)

/-! ## Runs -/

/-- A run reads an empty queue and takes the slot after `held` ones. -/
def takesSlot (r held : Nat) : List SlotAction :=
  [.start r, .readQueue r [], .readSlots r] ++ List.replicate (held + 1) (.attempt r)

/-- The ticket of a run that found both slots held. -/
def waitingTicket : BuildTicket := ⟨"w", "", 1, (), 0, 10⟩

/-- Two slots are held, a run joins the queue, and both are released. -/
def oneWaits : List SlotAction :=
  takesSlot 3 0 ++ takesSlot 4 1 ++
    [.start 0, .readQueue 0 [], .readSlots 0, .join 0 "w" "", .releaseSlot 3, .releaseSlot 4]

/-- A newcomer reads the queue and the slots, and it is its turn. -/
def newcomer (r : Nat) : List SlotAction :=
  [.start r, .readQueue r [waitingTicket], .readSlots r]

/-- With one waiter and two free slots a newcomer may take one. -/
theorem no_slot_overtaking_newcomer :
    ∃ w run, Machine.run (slotStep 2) .initial (oneWaits ++ newcomer 1) = some w ∧
      w.runs 1 = some run ∧ (w.olderWaiters run).length < (w.freeSlots 2).length := by
  have hSome : (Machine.run (slotStep 2) .initial (oneWaits ++ newcomer 1)).map (fun w =>
      (w.runs 1, w.held 0, (slotStep 2 w (.attempt 1)).map (·.held 0))) =
      some (some ⟨none, 16, .claiming [waitingTicket] 2 0⟩, none, some (some 1)) := by
    decide +kernel
  obtain ⟨w, hRun, hEnd⟩ := Option.map_eq_some_iff.mp hSome
  simp only [Prod.mk.injEq] at hEnd
  obtain ⟨hOne, hFree, hNext⟩ := hEnd
  obtain ⟨w', hStep, hTaken⟩ := Option.map_eq_some_iff.mp hNext
  exact ⟨w, _, hRun, hOne, (no_slot_overtaking hRun).1 1 (oneWaits ++
    [.start 1, .readQueue 1 [waitingTicket]]) [] w rfl hRun trivial _ _ 2 0 w' hOne rfl hFree hStep
    hTaken⟩

/-- Two newcomers share a position and both find it their turn: the second takes the last
free slot, with an older waiter in the queue. -/
theorem not_ordered_twoNewcomers :
    ∃ w w' run, Machine.run (slotStep 2) .initial
        (oneWaits ++ newcomer 1 ++ newcomer 2 ++ [.attempt 2, .attempt 1]) = some w ∧
      w.runs 1 = some run ∧ slotStep 2 w (.attempt 1) = some w' ∧ w.held 1 = none ∧
      w'.held 1 = some 1 ∧ ¬ (w.olderWaiters run).length < (w.freeSlots 2).length := by
  have hSome : (Machine.run (slotStep 2) .initial
      (oneWaits ++ newcomer 1 ++ newcomer 2 ++ [.attempt 2, .attempt 1])).map (fun w =>
        (w.runs 1, w.held 1, (slotStep 2 w (.attempt 1)).map (·.held 1), (w.runs 1).map
          (fun run => ((w.olderWaiters run).length, (w.freeSlots 2).length)))) =
      some (some ⟨none, 16, .claiming [waitingTicket] 2 1⟩, none, some (some 1), some (1, 1)) := by
    decide +kernel
  obtain ⟨w, hRun, hEnd⟩ := Option.map_eq_some_iff.mp hSome
  simp only [Prod.mk.injEq] at hEnd
  obtain ⟨hOne, hFree, hNext, hCounts⟩ := hEnd
  obtain ⟨w', hStep, hTaken⟩ := Option.map_eq_some_iff.mp hNext
  refine ⟨w, w', _, hRun, hOne, hStep, hFree, hTaken, ?_⟩
  rw [hOne, Option.map_some, Option.some.injEq, Prod.mk.injEq] at hCounts
  rw [hCounts.1, hCounts.2]
  exact Nat.lt_irrefl 1

end Stim.Cli
