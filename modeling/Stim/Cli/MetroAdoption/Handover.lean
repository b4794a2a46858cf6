import Stim.Cli.MetroAdoption.Knowledge

/-!
# A Metro's claim is handed from daemon to daemon

Between the first removal of a `retake` and the rename that records the child
again, the directory names no child: the daemon itself *carries* it.  A carrier
has seen no claim of another daemon, and every claim still there is one that it
has yet to look at or to reap, so its publication cannot fail.  The child is
lost exactly where a carrier dies.  While none does, a claim records the child,
or a live daemon is about to record it, or a live daemon carries it.
-/

namespace Stim.Cli.MetroAdoption

open OwnershipClaim (ClaimOwner ClaimId)

variable {k : ClaimOwner} {w w' : World} {p q : ClaimOwner}

/-! ## The child is never without a lead -/

/-- A daemon that attends a claim goes on to record the child in it. -/
theorem inspect_attends (w : World) (p : ClaimOwner) (job : Retake) (claim : ClaimFile)
    (survey : ClaimSurvey) (look : Look) :
    Attends claim (inspect w p (.settle job claim) survey look).2 := by
  cases look with
  | record =>
      simp only [inspect]
      split
      · rfl
      · split <;> rfl
  | reap =>
      simp only [inspect]
      split
      · rfl
      · split <;> rfl
  | owner | reread | probe | orphan =>
      simp only [inspect]
      split <;> rfl
  | child | reapChild | reapClaim => rfl

variable {claim : ClaimFile} {pc : Pc}

theorem next_attends (hPc : PcOk k w p pc) (hAttends : Attends claim pc) :
    Attends claim (next w p pc).2 ∨
      (next w p pc).1 = .recordChild ⟨claim.claimId, k⟩ := by
  cases pc with
  | list purpose =>
      cases purpose with
      | settle job own => exact .inl hAttends
      | adopt | acquire | giveUp => exact hAttends.elim
  | inspect purpose survey look =>
      cases purpose with
      | settle job own =>
          cases hAttends
          exact .inl (inspect_attends w p job claim survey look)
      | adopt | acquire | giveUp => exact hAttends.elim
  | stageChild job own => exact .inl hAttends
  | recordChild job own =>
      cases hAttends
      exact .inr (by simp only [next, hPc.1.child])
  | idle | retake | inspectChild | releaseRead | releaseChild | releaseClaim | publish | adopt =>
      exact hAttends.elim

/-- The claim of a live owner names the child or is about to. -/
theorem anchored_of_alive (hInv : Inv k w) (hMem : claim ∈ w.claims)
    (hAlive : w.alive claim.owner = true) : Anchored k w := by
  rcases hInv.attended claim hMem hAlive with hRecorded | hAttends
  · exact .inl ⟨claim, hMem, hRecorded⟩
  · exact .inr ⟨claim, hMem, hAlive, hAttends⟩

variable {id : ClaimId}

theorem recorded_of_childOf (hInv : Inv k w) {record : ClaimOwner}
    (h : w.childOf id = some record) : Recorded k w := by
  have hMem := mem_childFiles_of_childOf h
  obtain ⟨rfl, claim, hClaim, rfl⟩ := hInv.children _ hMem
  exact ⟨claim, hClaim, hMem⟩

variable {survey : ClaimSurvey} {look : Look}

theorem Unaware.skip {rest : List ClaimId} (h : Unaware w survey .record)
    (hTodo : survey.todo = id :: rest) (hLook : ¬ look.Removes)
    (hProbe : ∀ holder record, look ≠ .probe holder record)
    (hCovers : ∀ claim ∈ w.claims, claim.claimId = id → look.covers claim.claimId) :
    Unaware w { survey with todo := rest } look where
  live := h.live
  probe := hProbe
  todo := fun hRemoves => absurd hRemoves hLook
  covers := by
    intro claim hMem
    rcases h.covers claim hMem with hIn | hDead | hNow
    · rw [hTodo] at hIn
      rcases List.mem_cons.mp hIn with hId | hRest
      · exact .inr (.inr (hCovers claim hMem hId))
      · exact .inl hRest
    · exact .inr (.inl hDead)
    · exact hNow.elim

/-- A carrier goes on to carry, unless the child has an anchor. -/
theorem inspect_carries {job : Retake} {attempts : Nat} (hInv : Inv k w)
    (hSurvey : SurveyOk k w survey) (hLook : LookOk k w look) (h : Unaware w survey look) :
    Anchored k w ∨ Carries (w.apply p (inspect w p (.acquire job attempts) survey look).1)
      (inspect w p (.acquire job attempts) survey look).2 := by
  cases look with
  | record =>
      simp only [inspect]
      split
      · rename_i hTodo
        refine .inr ⟨h.live, fun _ _ h => (by cases h), fun _ => hTodo, ?_⟩
        intro claim hMem
        rcases h.covers claim hMem with hIn | hDead | hNow
        · exact .inl hIn
        · exact .inr (.inl hDead)
        · exact hNow.elim
      · rename_i id rest hTodo
        split
        · rename_i hNone
          refine .inr (h.skip hTodo (fun h => h) (fun _ _ h => (by cases h)) ?_)
          intro claim hMem hId
          have := List.find?_eq_none.mp hNone claim hMem
          simp [hId] at this
        · rename_i found hFound
          refine .inr (h.skip hTodo (fun h => h) (fun _ _ h => (by cases h)) ?_)
          intro claim hMem hId
          exact (mem_claims_of_claimAt hFound).2.trans hId.symm
  | child claim =>
      exact .inr ⟨h.live, fun _ _ h => (by cases h), fun h => h.elim, h.covers⟩
  | owner holder =>
      simp only [inspect]
      split_ifs with hOwner
      · obtain ⟨claim, hMem, -, hSame⟩ := hLook.1.2 hOwner
        exact .inl (anchored_of_alive hInv hMem (hSame ▸ hOwner))
      · exact .inr ⟨h.live, fun _ _ h => (by cases h), fun h => h.elim, h.covers⟩
  | reread holder =>
      simp only [inspect]
      split
      · refine .inr ⟨h.live, fun _ _ h => (by cases h), fun h => h.elim, ?_⟩
        intro claim hMem
        rcases h.covers claim hMem with hIn | hDead | hNow
        · exact .inl hIn
        · refine .inr (.inl ?_)
          simp only [ClaimSurvey.addDead, List.map_append, List.mem_append]
          exact .inl hDead
        · refine .inr (.inl ?_)
          have hId : holder.claimId = claim.claimId := hNow
          simp [ClaimSurvey.addDead, hId]
      · rename_i record hRecord
        exact .inl (.inl (recorded_of_childOf hInv hRecord))
  | probe holder record => exact absurd rfl (h.probe holder record)
  | orphan =>
      simp only [inspect, hSurvey.orphans]
      exact .inr ⟨h.live, fun _ _ h => (by cases h), fun _ => h.todo trivial, h.covers⟩
  | reap =>
      have hTodo := h.todo trivial
      simp only [inspect]
      split
      · rename_i hDead
        simp only [inspected, if_pos h.live]
        refine .inr (List.eq_nil_iff_forall_not_mem.mpr ?_)
        intro claim hMem
        rcases h.covers claim hMem with hIn | hIn | hNow
        · simp [hTodo] at hIn
        · simp [hDead] at hIn
        · exact hNow.elim
      · rename_i holder rest hDead
        -- The claim is gone, or it is the next one to remove.
        have hCovers : ∀ claim ∈ w.claims, claim.claimId ∈ survey.todo ∨
            claim.claimId ∈ rest.map Holder.claimId ∨ holder.claimId = claim.claimId := by
          intro claim hMem
          rcases h.covers claim hMem with hIn | hIn | hNow
          · exact .inl hIn
          · rw [hDead, List.map_cons, List.mem_cons] at hIn
            rcases hIn with hHead | hRest
            · exact .inr (.inr hHead.symm)
            · exact .inr (.inl hRest)
          · exact hNow.elim
        split
        · rename_i hNone
          refine .inr ⟨h.live, fun _ _ h => (by cases h), fun _ => hTodo, ?_⟩
          intro claim hMem
          rcases hCovers claim hMem with hIn | hIn | hNow
          · exact .inl hIn
          · exact .inr (.inl hIn)
          · have := List.find?_eq_none.mp hNone claim hMem
            simp [hNow] at this
        · exact .inr ⟨h.live, fun _ _ h => (by cases h), fun _ => hTodo, hCovers⟩
  | reapChild holder =>
      exact .inr ⟨h.live, fun _ _ h => (by cases h), fun _ => h.todo trivial, h.covers⟩
  | reapClaim holder =>
      refine .inr ⟨h.live, fun _ _ h => (by cases h), fun _ => h.todo trivial, ?_⟩
      intro claim hMem
      obtain ⟨hOld, hNe⟩ := List.mem_filter.mp hMem
      rcases h.covers claim hOld with hIn | hDead | hNow
      · exact .inl hIn
      · exact .inr (.inl hDead)
      · have hId : holder.claimId = claim.claimId := hNow
        simp [hId] at hNe

theorem next_carries (hInv : Inv k w) (hPc : PcOk k w p pc) (h : Carries w pc) :
    Anchored k w ∨ Carries (w.apply p (next w p pc).1) (next w p pc).2 ∨
      ∃ claim, (next w p pc).1 = .publish claim := by
  cases pc with
  | list purpose =>
      cases purpose with
      | acquire job attempts =>
          refine .inr (.inl ⟨rfl, fun _ _ h => (by cases h), fun h => h.elim, ?_⟩)
          exact fun claim hMem => .inl (List.mem_map_of_mem hMem)
      | adopt | settle | giveUp => exact h.elim
  | inspect purpose survey look =>
      cases purpose with
      | acquire job attempts =>
          rcases inspect_carries hInv hPc.2.1 hPc.2.2 h with hAnchored | hCarries
          · exact .inl hAnchored
          · exact .inr (.inl hCarries)
      | adopt | settle | giveUp => exact h.elim
  | releaseClaim job => exact .inr (.inl trivial)
  | publish job attempts claim =>
      -- An empty directory holds no child record either, so the rename succeeds.
      have hNone : w.claims = [] := h
      have hFiles : w.childFiles = [] := by
        refine List.eq_nil_iff_forall_not_mem.mpr ?_
        intro file hMem
        obtain ⟨-, other, hOther, -⟩ := hInv.children file hMem
        simp [hNone] at hOther
      refine .inr (.inr ⟨claim, ?_⟩)
      rw [next, if_pos ⟨hNone, hFiles⟩]
  | idle | retake | inspectChild | releaseRead | releaseChild | stageChild | recordChild | adopt =>
      exact h.elim

theorem Unaware.fewer (h : Unaware w survey look) (hFewer : ∀ claim ∈ w'.claims, claim ∈ w.claims) :
    Unaware w' survey look :=
  ⟨h.live, h.probe, h.todo, fun claim hMem => h.covers claim (hFewer claim hMem)⟩

theorem Carries.fewer (h : Carries w pc) (hFewer : ∀ claim ∈ w'.claims, claim ∈ w.claims) :
    Carries w' pc := by
  cases pc with
  | list purpose =>
      cases purpose with
      | acquire => trivial
      | adopt | settle | giveUp => exact h.elim
  | inspect purpose survey look =>
      cases purpose with
      | acquire => exact Unaware.fewer h hFewer
      | adopt | settle | giveUp => exact h.elim
  | releaseClaim => trivial
  | publish job attempts claim =>
      have hNone : w.claims = [] := h
      refine List.eq_nil_iff_forall_not_mem.mpr ?_
      intro other hMem
      simpa [hNone] using hFewer other hMem
  | idle | retake | inspectChild | releaseRead | releaseChild | stageChild | recordChild | adopt =>
      exact h.elim

variable {write : Write}

theorem apply_fewer (hWrite : ∀ claim, write ≠ .publish claim) :
    ∀ claim ∈ (w.apply p write).claims, claim ∈ w.claims := by
  intro claim hMem
  cases write with
  | unlinkClaim id => exact (List.mem_filter.mp hMem).1
  | publish new => exact absurd rfl (hWrite new)
  | nothing | unlinkChild | draw | recordChild | adopt => exact hMem

theorem inspect_unlinkChild {purpose : Purpose} (hSurvey : SurveyOk k w survey)
    (hLook : LookOk k w look) (hChild : w.alive k = true)
    (h : (inspect w p purpose survey look).1 = .unlinkChild id) : Bare w id := by
  cases look with
  | record =>
      simp only [inspect] at h
      split at h
      · cases h
      · split at h <;> cases h
  | child => cases h
  | owner | reread | probe =>
      simp only [inspect] at h
      split at h <;> cases h
  | orphan =>
      simp only [inspect, hSurvey.orphans] at h
      cases h
  | reap =>
      simp only [inspect] at h
      split at h
      · cases purpose with
        | acquire =>
            simp only [inspected] at h
            split at h <;> cases h
        | adopt | settle | giveUp => cases h
      · split at h <;> cases h
  | reapChild holder =>
      cases h
      exact hLook.2.2 hChild
  | reapClaim => cases h

/-- A record of the running child is removed only by a daemon that goes on to
carry it. -/
theorem next_unlinkChild (hPc : PcOk k w p pc) (hChild : w.alive k = true)
    (h : (next w p pc).1 = .unlinkChild id) :
    Bare w id ∨ ∃ job, (next w p pc).2 = .releaseClaim job := by
  cases pc with
  | inspect purpose survey look =>
      exact .inl (inspect_unlinkChild hPc.2.1 hPc.2.2 hChild h)
  | releaseChild job => exact .inr ⟨job, rfl⟩
  | retake holders =>
      cases holders with
      | nil => cases h
      | cons holder rest =>
          simp only [next] at h
          split at h <;> cases h
  | inspectChild | releaseRead | publish | recordChild | adopt =>
      simp only [next] at h
      split at h <;> cases h
  | idle | list | releaseClaim | stageChild => cases h

theorem inspect_ne_publish (w : World) (p : ClaimOwner) (purpose : Purpose) (survey : ClaimSurvey)
    (look : Look) (claim : ClaimFile) : (inspect w p purpose survey look).1 ≠ .publish claim := by
  intro h
  cases look with
  | record =>
      simp only [inspect] at h
      split at h
      · cases h
      · split at h <;> cases h
  | owner | reread | probe | orphan =>
      simp only [inspect] at h
      split at h <;> cases h
  | reap =>
      simp only [inspect] at h
      split at h
      · cases purpose with
        | acquire =>
            simp only [inspected] at h
            split at h <;> cases h
        | adopt | settle | giveUp => cases h
      · split at h <;> cases h
  | child | reapChild | reapClaim => cases h

theorem next_publish (h : (next w p pc).1 = .publish claim) : Attends claim (next w p pc).2 := by
  cases pc with
  | publish job attempts own =>
      simp only [next] at h ⊢
      split at h
      · rename_i hEmpty
        cases h
        rw [if_pos hEmpty]
        rfl
      · cases h
  | inspect purpose survey look => exact absurd h (inspect_ne_publish w p purpose survey look claim)
  | retake holders =>
      cases holders with
      | nil => cases h
      | cons holder rest =>
          simp only [next] at h
          split at h <;> cases h
  | inspectChild | releaseRead | recordChild | adopt =>
      simp only [next] at h
      split at h <;> cases h
  | idle | list | releaseChild | releaseClaim | stageChild => cases h

/-! ## Every step keeps the invariant -/

theorem act_pc_self (w : World) (p : ClaimOwner) : (w.act p).pc p = (next w p (w.pc p)).2 := by
  simp [World.act, World.setPc]

theorem act_pc_of_ne (w : World) (h : q ≠ p) : (w.act p).pc q = w.pc q := by
  simp [World.act, World.setPc, Function.update_of_ne h]

@[simp] theorem act_alive (w : World) (p : ClaimOwner) : (w.act p).alive = w.alive := by
  simp [World.act, World.setPc]

theorem mem_recordChild {file : ChildFile} (hFile : file.record = k)
    (hMem : ⟨id, k⟩ ∈ w.childFiles) : ⟨id, k⟩ ∈ (w.apply p (.recordChild file)).childFiles := by
  by_cases hId : id = file.claimId
  · have hSame : (⟨id, k⟩ : ChildFile) = file := by rw [hId, ← hFile]
    rw [hSame]
    exact List.mem_cons_self ..
  · exact List.mem_cons_of_mem _ (List.mem_filter.mpr ⟨hMem, by simpa using hId⟩)

theorem recorded_apply (hWrite : WriteOk k w p write)
    (hChild : ∀ id, write = .unlinkChild id → Bare w id) (h : Recorded k w) :
    Recorded k (w.apply p write) := by
  obtain ⟨claim, hClaim, hFile⟩ := h
  cases write with
  | nothing | draw | adopt => exact ⟨claim, hClaim, hFile⟩
  | unlinkChild id =>
      have hNe := hChild id rfl _ hFile
      exact ⟨claim, hClaim, List.mem_filter.mpr ⟨hFile, by simpa using hNe⟩⟩
  | unlinkClaim id =>
      have hNe := hWrite.2 _ hFile
      exact ⟨claim, List.mem_filter.mpr ⟨hClaim, by simpa using hNe⟩, hFile⟩
  | publish new =>
      simp [hWrite.1] at hClaim
  | recordChild file => exact ⟨claim, hClaim, mem_recordChild hWrite.1 hFile⟩

/-- A claim that its live owner attends is attended, or names the child, after
any step. -/
theorem attended_act (hInv : Inv k w) (hAlive : w.alive p = true)
    (h : Attends claim (w.pc claim.owner)) :
    ⟨claim.claimId, k⟩ ∈ (w.act p).childFiles ∨
      Attends claim ((w.act p).pc claim.owner) := by
  by_cases hOwner : claim.owner = p
  · subst hOwner
    rcases next_attends (hInv.pcs _ hAlive) h with hNext | hRecord
    · rw [act_pc_self]
      exact .inr hNext
    · refine .inl ?_
      simp [World.act, World.setPc, hRecord, World.apply]
  · rw [act_pc_of_ne w hOwner]
    exact .inr h

theorem anchored_act (hInv : Inv k w) (hAlive : w.alive p = true)
    (hChild : ∀ id, (next w p (w.pc p)).1 = .unlinkChild id → Bare w id) (h : Anchored k w) :
    Anchored k (w.act p) := by
  have hWrite := next_writeOk (hInv.pcs p hAlive)
  rcases h with hRecorded | ⟨claim, hMem, hOwner, hAttends⟩
  · exact .inl (recorded_apply hWrite hChild hRecorded)
  · have hMem' := (evolves_act hInv hAlive).claims claim hMem (by simpa using hOwner)
    rcases attended_act hInv hAlive hAttends with hFile | hAttends'
    · exact .inl ⟨claim, hMem', hFile⟩
    · exact .inr ⟨claim, hMem', by simpa using hOwner, hAttends'⟩

theorem anchored_publish (hInv : Inv k w) (hAlive : w.alive p = true)
    (h : (next w p (w.pc p)).1 = .publish claim) : Anchored k (w.act p) := by
  have hWrite := next_writeOk (hInv.pcs p hAlive)
  rw [h] at hWrite
  obtain ⟨-, -, rfl, -⟩ := hWrite
  refine .inr ⟨claim, ?_, by simpa using hAlive, ?_⟩
  · simp [World.act, World.setPc, h, World.apply]
  · rw [act_pc_self]
    exact next_publish h

theorem led_act (hInv : Inv k w) (hAlive : w.alive p = true) (hChild : w.alive k = true) :
    Led k (w.act p) := by
  have hPc := hInv.pcs p hAlive
  by_cases hLost : ∃ job, (next w p (w.pc p)).2 = .releaseClaim job
  · obtain ⟨job, hJob⟩ := hLost
    refine .inr ⟨p, by simpa using hAlive, ?_⟩
    rw [act_pc_self, hJob]
    trivial
  have hBare : ∀ id, (next w p (w.pc p)).1 = .unlinkChild id → Bare w id := fun id hId =>
    (next_unlinkChild hPc hChild hId).resolve_right hLost
  by_cases hPublish : ∃ claim, (next w p (w.pc p)).1 = .publish claim
  · obtain ⟨claim, hClaim⟩ := hPublish
    exact .inl (anchored_publish hInv hAlive hClaim)
  have hFewer := apply_fewer (w := w) (p := p) fun claim hClaim => hPublish ⟨claim, hClaim⟩
  rcases hInv.led hChild with hAnchored | ⟨q, hq, hCarries⟩
  · exact .inl (anchored_act hInv hAlive hBare hAnchored)
  · by_cases hSame : q = p
    · subst hSame
      rcases next_carries hInv hPc hCarries with hAnchored | hNext | hClaim
      · exact .inl (anchored_act hInv hAlive hBare hAnchored)
      · refine .inr ⟨q, by simpa using hq, ?_⟩
        rw [act_pc_self]
        exact hNext.fewer fun _ hMem => hMem
      · exact absurd hClaim hPublish
    · refine .inr ⟨q, by simpa using hq, ?_⟩
      rw [act_pc_of_ne w hSame]
      exact hCarries.fewer hFewer

theorem issued_apply (hInv : Inv k w) (hAlive : w.alive p = true) (hWrite : WriteOk k w p write) :
    ∀ claim ∈ (w.apply p write).claims,
      (w.apply p write).issued[claim.claimId]? = some claim.owner := by
  have hEvolves := evolves_apply hInv hAlive hWrite
  by_cases hPublish : ∃ new, write = .publish new
  · obtain ⟨new, rfl⟩ := hPublish
    obtain ⟨hNone, -, hOwner, hIssued⟩ := hWrite
    intro claim hMem
    rw [show (w.apply p (.publish new)).claims = [new] by simp [World.apply, hNone],
      List.mem_singleton] at hMem
    subst hMem
    rw [hOwner]
    exact hIssued
  · intro claim hMem
    have hOld := apply_fewer (fun new h => hPublish ⟨new, h⟩) claim hMem
    exact hEvolves.issued _ _ (hInv.issued claim hOld)

theorem lone_apply (hInv : Inv k w) (hWrite : WriteOk k w p write) :
    ∀ claim ∈ (w.apply p write).claims, ∀ other ∈ (w.apply p write).claims, claim = other := by
  cases write with
  | unlinkClaim id =>
      intro claim hMem other hOther
      exact hInv.lone claim (List.mem_filter.mp hMem).1 other (List.mem_filter.mp hOther).1
  | publish claim => simp [World.apply, hWrite.1]
  | nothing | unlinkChild | draw | recordChild | adopt => exact hInv.lone

theorem children_apply (hInv : Inv k w) (hWrite : WriteOk k w p write) :
    ∀ file ∈ (w.apply p write).childFiles, file.record = k ∧
      ∃ claim ∈ (w.apply p write).claims, claim.claimId = file.claimId := by
  intro file hMem
  cases write with
  | nothing | draw | adopt => exact hInv.children file hMem
  | unlinkChild id => exact hInv.children file (List.mem_filter.mp hMem).1
  | unlinkClaim id =>
      obtain ⟨hRecord, claim, hClaim, hId⟩ := hInv.children file hMem
      have hNe := hWrite.2 file hMem
      exact ⟨hRecord, claim, List.mem_filter.mpr ⟨hClaim, by simpa [hId] using hNe⟩, hId⟩
  | publish claim =>
      have hNone : file ∈ w.childFiles := hMem
      simp [hWrite.2.1] at hNone
  | recordChild new =>
      obtain ⟨hRecord, claim, hOwns, hId⟩ := hWrite
      rcases List.mem_cons.mp hMem with rfl | hOld
      · exact ⟨hRecord, claim, hOwns.1, hId⟩
      · exact hInv.children file (List.mem_filter.mp hOld).1

theorem attended_apply (hInv : Inv k w) (hAlive : w.alive p = true) :
    ∀ claim ∈ (w.act p).claims, (w.act p).alive claim.owner = true →
      ⟨claim.claimId, k⟩ ∈ (w.act p).childFiles ∨
        Attends claim ((w.act p).pc claim.owner) := by
  intro claim hMem hOwner
  rw [act_alive] at hOwner
  have hWrite := next_writeOk (hInv.pcs p hAlive)
  by_cases hPublish : ∃ new, (next w p (w.pc p)).1 = .publish new
  · obtain ⟨new, hNew⟩ := hPublish
    rw [hNew] at hWrite
    have hSame : claim = new := by
      simpa [World.act, World.setPc, World.apply, hNew, hWrite.1] using hMem
    subst hSame
    rw [hWrite.2.2.1, act_pc_self]
    exact .inr (next_publish hNew)
  have hOld := apply_fewer (fun new h => hPublish ⟨new, h⟩) claim hMem
  rcases hInv.attended claim hOld hOwner with hFile | hAttends
  · refine .inl ?_
    show ⟨claim.claimId, k⟩ ∈ (w.apply p (next w p (w.pc p)).1).childFiles
    cases hNext : (next w p (w.pc p)).1 with
    | unlinkChild id =>
        rw [hNext] at hWrite
        have hNe := Abandoned.ne hWrite (hInv.issued claim hOld) hOwner
        exact List.mem_filter.mpr ⟨hFile, by simpa using hNe⟩
    | recordChild file =>
        rw [hNext] at hWrite
        exact mem_recordChild hWrite.1 hFile
    | nothing | unlinkClaim | draw | publish | adopt => exact hFile
  · exact attended_act hInv hAlive hAttends

theorem adopted_act (hInv : Inv k w) (hAlive : w.alive p = true) (child : MetroChild)
    (hq : (w.act p).alive q = true) (h : (w.act p).children q = some child) :
    Owns (w.act p) q child.claim := by
  have hEvolves := evolves_act hInv hAlive
  have hWrite := next_writeOk (hInv.pcs p hAlive)
  have hOld : w.children q = some child → Owns (w.act p) q child.claim := fun hChild =>
    (hInv.adopted q child (hEvolves.alive q hq) hChild).evolves hEvolves hq
  change (w.apply p (next w p (w.pc p)).1).children q = some child at h
  cases hNext : (next w p (w.pc p)).1 with
  | adopt new =>
      rw [hNext] at h hWrite
      by_cases hSame : q = p
      · subst hSame
        obtain rfl : new = child := by simpa [World.apply] using h
        exact Owns.evolves hEvolves hq hWrite
      · exact hOld (by simpa [World.apply, Function.update_of_ne hSame] using h)
  | nothing | unlinkChild | unlinkClaim | draw | publish | recordChild =>
      rw [hNext] at h
      exact hOld h

theorem inv_act (hInv : Inv k w) (hAlive : w.alive p = true) : Inv k (w.act p) where
  issued := issued_apply hInv hAlive (next_writeOk (hInv.pcs p hAlive))
  lone := lone_apply hInv (next_writeOk (hInv.pcs p hAlive))
  children := children_apply hInv (next_writeOk (hInv.pcs p hAlive))
  pcs := by
    intro q hq
    by_cases hSame : q = p
    · subst hSame
      rw [act_pc_self]
      exact (next_pcOk hInv hAlive (hInv.pcs q hAlive)).evolves (evolves_setPc ..) hq
    · rw [act_pc_of_ne w hSame]
      have hEvolves := evolves_act hInv hAlive
      exact (hInv.pcs q (hEvolves.alive q hq)).evolves hEvolves hq
  attended := attended_apply hInv hAlive
  adopted := fun _ child hq h => adopted_act hInv hAlive child hq h
  led := fun hChild => led_act hInv hAlive (by simpa using hChild)

theorem inv_begin (hInv : Inv k w) (hIdle : w.pc p = .idle) : Inv k (w.begin p) := by
  by_cases hChild : (w.children p).isSome
  · rw [World.begin, if_pos hChild]
    exact hInv
  rw [World.begin, if_neg hChild]
  have hPc : ∀ q, q ≠ p → (w.setPc p (.list .adopt)).pc q = w.pc q := fun q hq =>
    Function.update_of_ne hq ..
  exact {
    issued := hInv.issued
    lone := hInv.lone
    children := hInv.children
    pcs := by
      intro q hq
      by_cases hSame : q = p
      · subst hSame
        simp [World.setPc, PcOk, PurposeOk]
      · rw [hPc q hSame]
        exact (hInv.pcs q hq).evolves (evolves_setPc ..) hq
    attended := by
      intro claim hMem hOwner
      rcases hInv.attended claim hMem hOwner with hFile | hAttends
      · exact .inl hFile
      · refine .inr ?_
        rwa [hPc]
        intro hSame
        rw [hSame, hIdle] at hAttends
        exact hAttends
    adopted := hInv.adopted
    led := by
      intro hAlive
      rcases hInv.led hAlive with (hRecorded | ⟨claim, hMem, hOwner, hAttends⟩) | ⟨q, hq, hCarries⟩
      · exact .inl (.inl hRecorded)
      · refine .inl (.inr ⟨claim, hMem, hOwner, ?_⟩)
        rwa [hPc]
        intro hSame
        rw [hSame, hIdle] at hAttends
        exact hAttends
      · refine .inr ⟨q, hq, ?_⟩
        rw [hPc]
        · exact hCarries.fewer fun _ hMem => hMem
        · rintro rfl
          rw [hIdle] at hCarries
          exact hCarries }

/-- Whether the daemon is past the first removal of its retake and not past the
rename that records the child again. -/
def Pc.unrecorded : Pc → Bool
  | .list purpose | .inspect purpose _ _ => decide (purpose ≠ .adopt)
  | .releaseClaim _ | .publish .. | .stageChild .. | .recordChild .. => true
  | .idle | .retake _ | .inspectChild _ | .releaseRead _ | .releaseChild _ | .adopt .. => false

theorem unrecorded_of_carries (h : Carries w pc) : pc.unrecorded = true := by
  cases pc with
  | list purpose | inspect purpose =>
      cases purpose with
      | acquire => rfl
      | adopt | settle | giveUp => exact h.elim
  | releaseClaim | publish => rfl
  | idle | retake | inspectChild | releaseRead | releaseChild | stageChild | recordChild | adopt =>
      exact h.elim

theorem unrecorded_of_attends (h : Attends claim pc) : pc.unrecorded = true := by
  cases pc with
  | list purpose | inspect purpose =>
      cases purpose with
      | settle => rfl
      | adopt | acquire | giveUp => exact h.elim
  | stageChild | recordChild => rfl
  | idle | retake | inspectChild | releaseRead | releaseChild | releaseClaim | publish | adopt =>
      exact h.elim

instance (k : ClaimOwner) (w : World) : Decidable (Recorded k w) :=
  inferInstanceAs (Decidable (∃ claim ∈ w.claims, ⟨claim.claimId, k⟩ ∈ w.childFiles))

/-- No daemon dies in the middle of its retake while no claim names the child. -/
def Unbroken (k : ClaimOwner) (w : World) : Action → Prop
  | .die p => (w.pc p).unrecorded = true → Recorded k w
  | .adoptAt _ | .act _ | .groupEnds _ => True

instance (k : ClaimOwner) (w : World) (a : Action) : Decidable (Unbroken k w a) := by
  cases a <;> unfold Unbroken <;> infer_instance

theorem evolves_die (w : World) (p : ClaimOwner) : Evolves w (w.die p) where
  issued := fun _ _ h => h
  alive := by
    intro q hq
    by_cases hSame : q = p
    · simp [World.die, hSame] at hq
    · simpa [World.die, Function.update_of_ne hSame] using hq
  claims := fun _ h _ => h
  bare := fun _ _ _ _ h => h

theorem ne_of_alive_die (h : (w.die p).alive q = true) : q ≠ p := by
  rintro rfl
  simp [World.die] at h

theorem led_die (hInv : Inv k w) (hUnbroken : Unbroken k w (.die p))
    (hChild : w.alive k = true) : Led k (w.die p) := by
  by_cases hPc : (w.pc p).unrecorded = true
  · exact .inl (.inl (hUnbroken hPc))
  have hOther : ∀ q, w.alive q = true → (w.pc q).unrecorded = true →
      (w.die p).alive q = true ∧ (w.die p).pc q = w.pc q := by
    intro q hq hWindow
    have hNe : q ≠ p := by
      rintro rfl
      exact hPc hWindow
    simp [World.die, Function.update_of_ne hNe, hq]
  rcases hInv.led hChild with (hRecorded | ⟨claim, hMem, hOwner, hAttends⟩) | ⟨q, hq, hCarries⟩
  · exact .inl (.inl hRecorded)
  · obtain ⟨hAlive, hSame⟩ := hOther _ hOwner (unrecorded_of_attends hAttends)
    exact .inl (.inr ⟨claim, hMem, hAlive, hSame ▸ hAttends⟩)
  · obtain ⟨hAlive, hSame⟩ := hOther q hq (unrecorded_of_carries hCarries)
    refine .inr ⟨q, hAlive, ?_⟩
    rw [hSame]
    exact hCarries.fewer fun _ hMem => hMem

theorem inv_die (hInv : Inv k w) (hUnbroken : Unbroken k w (.die p)) : Inv k (w.die p) where
  issued := hInv.issued
  lone := hInv.lone
  children := hInv.children
  pcs := by
    intro q hq
    have hPc : (w.die p).pc q = w.pc q := Function.update_of_ne (ne_of_alive_die hq) ..
    rw [hPc]
    exact (hInv.pcs q ((evolves_die w p).alive q hq)).evolves (evolves_die w p) hq
  attended := by
    intro claim hMem hOwner
    have hPc : (w.die p).pc claim.owner = w.pc claim.owner :=
      Function.update_of_ne (ne_of_alive_die hOwner) ..
    rw [hPc]
    exact hInv.attended claim hMem ((evolves_die w p).alive _ hOwner)
  adopted := by
    intro q child hq hChild
    have hOld : w.children q = some child := by
      simpa [World.die, Function.update_of_ne (ne_of_alive_die hq)] using hChild
    exact hInv.adopted q child ((evolves_die w p).alive q hq) hOld
  led := fun hChild => led_die hInv hUnbroken ((evolves_die w p).alive k hChild)

theorem inv_groupEnds (hInv : Inv k w) (group : ClaimOwner → Bool) :
    Inv k { w with group } where
  issued := hInv.issued
  lone := hInv.lone
  children := hInv.children
  pcs := by
    intro q hq
    refine (hInv.pcs q hq).evolves ?_ hq
    exact ⟨fun _ _ h => h, fun _ h => h, fun _ h _ => h, fun _ _ _ _ h => h⟩
  attended := hInv.attended
  adopted := hInv.adopted
  led := by
    intro hChild
    rcases hInv.led hChild with hAnchored | ⟨q, hq, hCarries⟩
    · exact .inl hAnchored
    · exact .inr ⟨q, hq, hCarries.fewer fun _ hMem => hMem⟩

theorem inv_step {a : Action} (hInv : Inv k w) (hUnbroken : Unbroken k w a)
    (hStep : step w a = some w') : Inv k w' := by
  cases a with
  | adoptAt p =>
      obtain ⟨⟨-, hIdle⟩, hSome⟩ := Option.ite_none_right_eq_some.mp hStep
      cases hSome
      exact inv_begin hInv hIdle
  | act p =>
      obtain ⟨⟨hAlive, -⟩, hSome⟩ := Option.ite_none_right_eq_some.mp hStep
      cases hSome
      exact inv_act hInv hAlive
  | die p =>
      obtain ⟨-, hSome⟩ := Option.ite_none_right_eq_some.mp hStep
      cases hSome
      exact inv_die hInv hUnbroken
  | groupEnds p =>
      obtain ⟨-, hSome⟩ := Option.ite_none_left_eq_some.mp hStep
      cases hSome
      exact inv_groupEnds hInv _

/-! ## A running child is never orphaned -/

/-- Whether the daemon is between the steps of its own retake. -/
def Pc.retaking : Pc → Bool
  | .inspectChild _ | .releaseRead _ | .releaseChild _ => true
  | pc => pc.unrecorded

/-- Whether the daemon holds an acquired claim of the workspace. -/
def World.holds (w : World) (p : ClaimOwner) : Bool :=
  (w.children p).isSome || match w.pc p with
    | .stageChild .. | .recordChild .. | .adopt .. => true
    | _ => false

/-- While the child runs, `readClaimSet` reports a live claim that records it or
a live daemon is retaking it, and at most one live daemon holds a claim. -/
structure Supervised (k : ClaimOwner) (w : World) : Prop where
  found : w.alive k = true → (∃ holder ∈ w.readClaimSet, holder.child = some k) ∨
    ∃ p, w.alive p = true ∧ (w.pc p).retaking = true
  alone : ∀ p q, w.alive p = true → w.alive q = true → w.holds p = true → w.holds q = true →
    p = q

theorem retaking_of_unrecorded (h : pc.unrecorded = true) : pc.retaking = true := by
  cases pc <;> first | exact h | rfl

theorem found_of_recorded (hInv : Inv k w) (hChild : w.alive k = true) (h : Recorded k w) :
    ∃ holder ∈ w.readClaimSet, holder.child = some k := by
  obtain ⟨claim, hMem, hFile⟩ := h
  have hRecord := childOf_of_mem hInv hFile
  refine ⟨claim.holder (some k), ?_, rfl⟩
  refine List.mem_map.mpr ⟨claim, List.mem_filter.mpr ⟨hMem, ?_⟩, by rw [hRecord]⟩
  simp [World.claimLive, hRecord, World.childHolds, hChild]

theorem owns_of_holds (hInv : Inv k w) (hAlive : w.alive p = true) (h : w.holds p = true) :
    ∃ claim, Owns w p claim := by
  rcases (Bool.or_eq_true_iff ..).mp h with hChild | hPc
  · obtain ⟨child, hSome⟩ := Option.isSome_iff_exists.mp hChild
    exact ⟨child.claim, hInv.adopted p child hAlive hSome⟩
  · have hOk := hInv.pcs p hAlive
    split at hPc
    · rename_i job claim hAt
      rw [hAt] at hOk
      exact ⟨claim, hOk.2⟩
    · rename_i job claim hAt
      rw [hAt] at hOk
      exact ⟨claim, hOk.2⟩
    · rename_i job claim hAt
      rw [hAt] at hOk
      exact ⟨claim, hOk.2⟩
    · cases hPc

theorem supervised_of_inv (hInv : Inv k w) : Supervised k w where
  found := by
    intro hChild
    rcases hInv.led hChild with (hRecorded | ⟨claim, -, hOwner, hAttends⟩) | ⟨p, hp, hCarries⟩
    · exact .inl (found_of_recorded hInv hChild hRecorded)
    · exact .inr ⟨_, hOwner, retaking_of_unrecorded (unrecorded_of_attends hAttends)⟩
    · exact .inr ⟨p, hp, retaking_of_unrecorded (unrecorded_of_carries hCarries)⟩
  alone := by
    intro p q hp hq hHoldsP hHoldsQ
    obtain ⟨claim, hClaim, hOwner⟩ := owns_of_holds hInv hp hHoldsP
    obtain ⟨other, hOther, hOwner'⟩ := owns_of_holds hInv hq hHoldsQ
    rw [← hOwner, ← hOwner', hInv.lone claim hClaim other hOther]

/-! ## An adoption alone finds what `readClaimSet` reports -/

/-- The requests of a daemon that reads while nothing moves. -/
def Reads (w : World) (p : ClaimOwner) : Pc → Pc → Prop :=
  Relation.ReflTransGen fun pc pc' => pc ≠ .idle ∧ next w p pc = (.nothing, pc')

theorem Reads.head {pc pc'' : Pc} (pc' : Pc) (hBusy : pc ≠ .idle)
    (hNext : next w p pc = (.nothing, pc')) (h : Reads w p pc' pc'') : Reads w p pc pc'' :=
  Relation.ReflTransGen.head ⟨hBusy, hNext⟩ h

/-- The survey after one claim, read with nothing moving meanwhile. -/
def World.readClaim (w : World) (survey : ClaimSurvey) (claim : ClaimFile) : ClaimSurvey :=
  if w.claimLive claim then survey.addLive (claim.holder (w.childOf claim.claimId))
  else survey.addDead (claim.holder (w.childOf claim.claimId))

theorem reads_claim (hInv : Inv k w) (hMem : claim ∈ w.claims) {rest : List ClaimId}
    (hTodo : survey.todo = claim.claimId :: rest) :
    Reads w p (.inspect .adopt survey .record)
      (.inspect .adopt (w.readClaim { survey with todo := rest } claim) .record) := by
  have hFound : w.claimAt claim.claimId = some claim := by
    cases hAt : w.claimAt claim.claimId with
    | none => simpa using List.find?_eq_none.mp hAt claim hMem
    | some other => rw [hInv.lone other (mem_claims_of_claimAt hAt).1 claim hMem]
  let survey' : ClaimSurvey := { survey with todo := rest }
  let holder := claim.holder (w.childOf claim.claimId)
  refine Reads.head (.inspect .adopt survey' (.child claim)) (by simp)
    (by simp only [next, inspect, hTodo, hFound, survey']) ?_
  refine Reads.head (.inspect .adopt survey' (.owner holder)) (by simp) rfl ?_
  by_cases hOwner : w.alive claim.owner = true
  · have hLive : w.readClaim survey' claim = survey'.addLive holder :=
      if_pos (by simp [World.claimLive, hOwner])
    rw [hLive]
    exact Reads.head _ (by simp) (if_pos hOwner) .refl
  refine Reads.head (.inspect .adopt survey' (.reread holder)) (by simp) (if_neg hOwner) ?_
  cases hChild : w.childOf claim.claimId with
  | none =>
      have hDead : w.readClaim survey' claim = survey'.addDead holder :=
        if_neg (by simp [World.claimLive, hOwner, hChild])
      rw [hDead]
      refine Reads.head _ (by simp) ?_ .refl
      simp [next, inspect, holder, ClaimFile.holder, hChild]
  | some record =>
      refine Reads.head (.inspect .adopt survey' (.probe holder record)) (by simp) ?_ ?_
      · simp [next, inspect, holder, ClaimFile.holder, hChild]
      by_cases hHolds : w.childHolds record = true
      · have hLive : w.readClaim survey' claim = survey'.addLive holder :=
          if_pos (by simp [World.claimLive, hChild, hHolds])
        rw [hLive]
        exact Reads.head _ (by simp) (if_pos hHolds) .refl
      · have hDead : w.readClaim survey' claim = survey'.addDead holder :=
          if_neg (by simp [World.claimLive, hOwner, hChild, hHolds])
        rw [hDead]
        exact Reads.head _ (by simp) (if_neg hHolds) .refl

theorem readClaim_todo (w : World) (survey : ClaimSurvey) (claim : ClaimFile) :
    (w.readClaim survey claim).todo = survey.todo := by
  unfold World.readClaim
  split <;> rfl

theorem readClaim_live (survey : ClaimSurvey) (claim : ClaimFile) :
    (w.readClaim survey claim).live = survey.live ++
      ([claim].filter w.claimLive).map fun claim => claim.holder (w.childOf claim.claimId) := by
  unfold World.readClaim
  split <;> simp_all [ClaimSurvey.addLive, ClaimSurvey.addDead]

/-- By induction on the claims listed and not read yet. -/
theorem reads_todo (hInv : Inv k w) (claims : List ClaimFile)
    (hMem : ∀ claim ∈ claims, claim ∈ w.claims)
    (hTodo : survey.todo = claims.map ClaimFile.claimId) :
    Reads w p (.inspect .adopt survey .record) (.retake (survey.live ++
      (claims.filter w.claimLive).map fun claim => claim.holder (w.childOf claim.claimId))) := by
  induction claims generalizing survey with
  | nil =>
      refine Reads.head _ (by simp) ?_ .refl
      simp only [List.map_nil] at hTodo
      simp [next, inspect, hTodo, surveyed]
  | cons claim rest ih =>
      have hFirst := reads_claim (p := p) hInv (hMem claim (List.mem_cons_self ..)) hTodo
      refine hFirst.trans ?_
      have hRest := ih (fun other h => hMem other (List.mem_cons_of_mem _ h))
        (readClaim_todo w { survey with todo := rest.map ClaimFile.claimId } claim)
      rw [readClaim_live, List.append_assoc, ← List.map_append, ← List.filter_append] at hRest
      exact hRest

/-- So an adoption that runs alone finds the child where a claim records it. -/
theorem adoption_finds (hInv : Inv k w) (hChild : w.alive k = true) (h : Recorded k w) :
    ∃ holders, Reads w p (.list .adopt) (.retake holders) ∧
      ∃ holder ∈ holders, holder.child = some k := by
  refine ⟨w.readClaimSet, ?_, found_of_recorded hInv hChild h⟩
  refine Reads.head (.inspect .adopt w.listing .record) (by simp) rfl ?_
  exact reads_todo hInv w.claims (fun _ hMem => hMem) rfl

section Runs

variable {predecessor : ClaimOwner} {details : ClaimDetails} {alive group : ClaimOwner → Bool}
  {actions : List Action}

theorem inv_start (hDead : alive predecessor = false) :
    Inv k (World.start predecessor k details alive group) where
  issued := by simp [World.start]
  lone := by simp [World.start]
  children := by simp [World.start]
  pcs := fun _ _ => trivial
  attended := by
    intro claim hMem hOwner
    obtain rfl := List.mem_singleton.mp hMem
    simp [World.start, hDead] at hOwner
  adopted := by simp [World.start]
  led := fun _ => .inl (.inl ⟨_, List.mem_singleton_self .., List.mem_singleton_self ..⟩)

/-- In every run in which no daemon dies between the first removal of its retake
and the rename that records the child again, while no claim names the child, the
child is supervised in every state. -/
theorem supervised_of_run (hDead : alive predecessor = false)
    (hRun : Machine.run step (World.start predecessor k details alive group) actions = some w)
    (hUnbroken : Machine.Meets step (Unbroken k) (World.start predecessor k details alive group)
      actions) : Supervised k w :=
  supervised_of_inv (Machine.invariant_run_meets (P := Inv k)
    (fun _ _ _ hInv hMet hStep => inv_step hInv hMet hStep) (inv_start hDead) hRun hUnbroken)

/-- After every such run, while no live daemon is between the removal and the rename, an adoption
that runs alone reads its way to the child that still runs. -/
theorem adoption_finds_of_run (hDead : alive predecessor = false)
    (hRun : Machine.run step (World.start predecessor k details alive group) actions = some w)
    (hUnbroken : Machine.Meets step (Unbroken k) (World.start predecessor k details alive group)
      actions) (hChild : w.alive k = true)
    (hSettled : ∀ q, w.alive q = true → (w.pc q).unrecorded = false) (p : ClaimOwner) :
    ∃ holders, Reads w p (.list .adopt) (.retake holders) ∧
      ∃ holder ∈ holders, holder.child = some k := by
  have hInv : Inv k w := Machine.invariant_run_meets (P := Inv k)
    (fun _ _ _ hInv hMet hStep => inv_step hInv hMet hStep) (inv_start hDead) hRun hUnbroken
  rcases hInv.led hChild with (hRecorded | ⟨claim, -, hOwner, hAttends⟩) | ⟨q, hq, hCarries⟩
  · exact adoption_finds hInv hChild hRecorded
  · exact absurd (unrecorded_of_attends hAttends) (by simp [hSettled _ hOwner])
  · exact absurd (unrecorded_of_carries hCarries) (by simp [hSettled _ hq])

end Runs

/-! ## Runs -/

def predecessor : ClaimOwner := ⟨10, 0⟩
def metro : ClaimOwner := ⟨11, 0⟩
def successor : ClaimOwner := ⟨12, 0⟩
def rival : ClaimOwner := ⟨13, 0⟩

/-- Metro runs with its claim left by a dead daemon; two daemons run. -/
def orphaned : World :=
  World.start predecessor metro ⟨8081, "expo", none, some (120, 40)⟩
    (fun p => decide (p ≠ predecessor)) (fun p => decide (p = metro))

/-- Two daemons see the predecessor's claim; one adopts Metro while the other
finds the set held; then the adopter dies. -/
def adoption : List Action :=
  [.adoptAt successor, .adoptAt rival] ++ List.replicate 8 (.act rival) ++
    List.replicate 28 (.act successor) ++ List.replicate 10 (.act rival) ++ [.die successor]

theorem supervised_of_run_adoption :
    ∃ w, Machine.run step orphaned adoption = some w ∧ Supervised metro w :=
  have hRun : (Machine.run step orphaned adoption).isSome = true := by decide +kernel
  have ⟨w, hw⟩ := Option.isSome_iff_exists.mp hRun
  ⟨w, hw, supervised_of_run rfl hw (by decide +kernel)⟩

theorem step_idle {a : Action} (hStep : step w a = some w') (hOther : a ≠ .adoptAt p)
    (hIdle : w.pc p = .idle) : w'.pc p = .idle := by
  cases a with
  | adoptAt q =>
      obtain ⟨-, hSome⟩ := Option.ite_none_right_eq_some.mp hStep
      cases hSome
      have hNe : p ≠ q := by
        rintro rfl
        exact hOther rfl
      unfold World.begin
      split
      · exact hIdle
      · simpa [World.setPc, Function.update_of_ne hNe] using hIdle
  | act q =>
      obtain ⟨⟨-, hBusy⟩, hSome⟩ := Option.ite_none_right_eq_some.mp hStep
      cases hSome
      have hNe : p ≠ q := by
        rintro rfl
        exact hBusy hIdle
      rw [act_pc_of_ne w hNe, hIdle]
  | die q =>
      obtain ⟨-, hSome⟩ := Option.ite_none_right_eq_some.mp hStep
      cases hSome
      by_cases hSame : p = q
      · simp [World.die, hSame]
      · simpa [World.die, Function.update_of_ne hSame] using hIdle
  | groupEnds q =>
      obtain ⟨-, hSome⟩ := Option.ite_none_left_eq_some.mp hStep
      cases hSome
      exact hIdle

/-- A daemon that never begins `adoptAt` stays idle. -/
theorem idle_of_run {actions : List Action} (hRun : Machine.run step w actions = some w')
    (hNone : Action.adoptAt p ∉ actions) (hIdle : w.pc p = .idle) : w'.pc p = .idle := by
  refine Machine.invariant_run_of (P := fun w => w.pc p = .idle)
    (C := fun _ a => a ≠ .adoptAt p)
    (fun _ _ _ hPc hOther hStep => step_idle hStep hOther hPc) hIdle hRun ?_
  rintro before a after u hSplit - rfl
  exact hNone (by simp [hSplit])

/-- Behind the adopter's death the other daemon's adoption finds Metro. -/
theorem adoption_finds_of_run_adoption :
    ∃ w, Machine.run step orphaned adoption = some w ∧
      ∃ holders, Reads w rival (.list .adopt) (.retake holders) ∧
        ∃ holder ∈ holders, holder.child = some metro := by
  have hEnd : (Machine.run step orphaned adoption).map (fun w =>
      (w.alive metro, w.pc successor, w.pc rival)) = some (true, .idle, .idle) := by
    decide +kernel
  obtain ⟨w, hw, hSeen⟩ := Option.map_eq_some_iff.mp hEnd
  obtain ⟨hMetro, hSuccessor, hRival⟩ : w.alive metro = true ∧ w.pc successor = .idle ∧
      w.pc rival = .idle := by
    simpa using hSeen
  have hSettled : ∀ q, w.alive q = true → (w.pc q).unrecorded = false := by
    intro q _
    have hIdle : w.pc q = .idle := by
      by_cases hFirst : q = successor
      · rw [hFirst, hSuccessor]
      by_cases hSecond : q = rival
      · rw [hSecond, hRival]
      · refine idle_of_run hw ?_ rfl
        simp [adoption, hFirst, hSecond]
    rw [hIdle]
    rfl
  exact ⟨w, hw, adoption_finds_of_run rfl hw (by decide +kernel) hMetro hSettled rival⟩

/-- A daemon reads the predecessor's claim, begins to release it and dies once
the child record is gone. -/
def brokenRetake : List Action :=
  [.adoptAt successor] ++ List.replicate 11 (.act successor) ++ [.die successor]

/-- Metro still runs, no claim is live, and no daemon is retaking one. -/
theorem not_supervised_brokenRetake :
    ∃ w, Machine.run step orphaned brokenRetake = some w ∧ ¬ Supervised metro w := by
  have hEnd : (Machine.run step orphaned brokenRetake).map (fun w =>
      (w.alive metro, w.readClaimSet, w.pc successor)) = some (true, [], .idle) := by
    decide +kernel
  obtain ⟨w, hw, hSeen⟩ := Option.map_eq_some_iff.mp hEnd
  obtain ⟨hMetro, hClaims, hPc⟩ : w.alive metro = true ∧ w.readClaimSet = [] ∧
      w.pc successor = .idle := by
    simpa using hSeen
  refine ⟨w, hw, ?_⟩
  intro hSupervised
  rcases hSupervised.found hMetro with ⟨holder, hMem, -⟩ | ⟨p, -, hRetaking⟩
  · simp [hClaims] at hMem
  · have hIdle : w.pc p = .idle := by
      by_cases hSame : p = successor
      · rw [hSame, hPc]
      · refine idle_of_run hw ?_ rfl
        simp [brokenRetake, hSame]
    simp [hIdle, Pc.retaking, Pc.unrecorded] at hRetaking

end Stim.Cli.MetroAdoption
