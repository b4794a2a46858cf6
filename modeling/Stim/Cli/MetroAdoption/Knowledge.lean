import Stim.Cli.MetroAdoption

/-!
# What a daemon knows while it adopts

A claim id tells who drew it, and the claims of live processes stay where they
are.  So what a daemon once read of a dead holder remains true, and each of its
own removals concerns a claim whose owner is dead.  The invariant of the whole
system is stated here; the steps that keep it are in `Handover`.
-/

namespace Stim.Cli.MetroAdoption

open OwnershipClaim (ClaimOwner ClaimId)

variable {k : ClaimOwner} {w w' : World} {p q : ClaimOwner}

/-! ## What a daemon knows -/

/-- A claim id belongs to the process that drew it, and its claim is still in
the directory while that process lives. -/
def Known (w : World) (id : ClaimId) (owner : ClaimOwner) : Prop :=
  w.issued[id]? = some owner ∧
    (w.alive owner = true → ∃ claim ∈ w.claims, claim.claimId = id ∧ claim.owner = owner)

/-- No child record names the claim. -/
def Bare (w : World) (id : ClaimId) : Prop :=
  ∀ file ∈ w.childFiles, file.claimId ≠ id

def KnownHolder (k : ClaimOwner) (w : World) (holder : Holder) : Prop :=
  Known w holder.claimId holder.owner ∧ ∀ record ∈ holder.child, record = k

/-- A holder that died and, while the child lives, left no child record. -/
def Doomed (k : ClaimOwner) (w : World) (holder : Holder) : Prop :=
  KnownHolder k w holder ∧ w.alive holder.owner = false ∧
    (w.alive k = true → Bare w holder.claimId)

structure RetakeOk (k : ClaimOwner) (w : World) (job : Retake) : Prop where
  holder : KnownHolder k w job.holder
  dead : w.alive job.holder.owner = false
  child : job.holder.child = some k
  rest : ∀ holder ∈ job.rest, KnownHolder k w holder

/-- The claim of a daemon that has published it. -/
def Owns (w : World) (p : ClaimOwner) (claim : ClaimFile) : Prop :=
  claim ∈ w.claims ∧ claim.owner = p

def PurposeOk (k : ClaimOwner) (w : World) (p : ClaimOwner) : Purpose → Prop
  | .adopt => True
  | .acquire job _ => RetakeOk k w job
  | .settle job claim => RetakeOk k w job ∧ Owns w p claim
  | .giveUp job => RetakeOk k w job

structure SurveyOk (k : ClaimOwner) (w : World) (survey : ClaimSurvey) : Prop where
  live : ∀ holder ∈ survey.live, KnownHolder k w holder
  dead : ∀ holder ∈ survey.dead, Doomed k w holder
  orphans : survey.orphans = []

def LookOk (k : ClaimOwner) (w : World) : Look → Prop
  | .record | .orphan | .reap => True
  | .child claim => Known w claim.claimId claim.owner
  | .owner holder => KnownHolder k w holder
  | .reread holder => KnownHolder k w holder ∧ w.alive holder.owner = false
  | .probe holder record =>
      KnownHolder k w holder ∧ w.alive holder.owner = false ∧ record = k
  | .reapChild holder => Doomed k w holder
  | .reapClaim holder => Doomed k w holder ∧ Bare w holder.claimId

/-- What a live daemon knows at each place of `adoptAt`. -/
def PcOk (k : ClaimOwner) (w : World) (p : ClaimOwner) : Pc → Prop
  | .idle => True
  | .list purpose => PurposeOk k w p purpose
  | .inspect purpose survey look =>
      PurposeOk k w p purpose ∧ SurveyOk k w survey ∧ LookOk k w look
  | .retake holders => ∀ holder ∈ holders, KnownHolder k w holder
  | .inspectChild job =>
      KnownHolder k w job.holder ∧ w.alive job.holder.owner = false ∧
        job.holder.child = some k ∧ ∀ holder ∈ job.rest, KnownHolder k w holder
  | .releaseRead job | .releaseChild job => RetakeOk k w job
  | .releaseClaim job => RetakeOk k w job ∧ Bare w job.holder.claimId
  | .publish job _ claim =>
      RetakeOk k w job ∧ claim.owner = p ∧ w.issued[claim.claimId]? = some p
  | .stageChild job claim | .recordChild job claim | .adopt job claim =>
      RetakeOk k w job ∧ Owns w p claim

/-! ## What no step takes away -/

structure Evolves (w w' : World) : Prop where
  issued : ∀ (id : ClaimId) owner, w.issued[id]? = some owner → w'.issued[id]? = some owner
  alive : ∀ p, w'.alive p = true → w.alive p = true
  claims : ∀ claim ∈ w.claims, w'.alive claim.owner = true → claim ∈ w'.claims
  bare : ∀ (id : ClaimId) owner, w.issued[id]? = some owner → w.alive owner = false →
    Bare w id → Bare w' id

theorem Evolves.dead (h : Evolves w w') (hDead : w.alive p = false) : w'.alive p = false := by
  by_contra hAlive
  have := h.alive p (by simpa using hAlive)
  simp [hDead] at this

variable {id : ClaimId}

theorem Known.evolves {owner : ClaimOwner} (h : Evolves w w') (hKnown : Known w id owner) :
    Known w' id owner := by
  refine ⟨h.issued id owner hKnown.1, ?_⟩
  intro hAlive
  obtain ⟨claim, hMem, hId, hOwner⟩ := hKnown.2 (h.alive owner hAlive)
  exact ⟨claim, h.claims claim hMem (hOwner ▸ hAlive), hId, hOwner⟩

variable {holder : Holder}

theorem KnownHolder.evolves (h : Evolves w w') (hKnown : KnownHolder k w holder) :
    KnownHolder k w' holder :=
  ⟨hKnown.1.evolves h, hKnown.2⟩

theorem Doomed.evolves (h : Evolves w w') (hDoomed : Doomed k w holder) : Doomed k w' holder := by
  obtain ⟨hKnown, hDead, hBare⟩ := hDoomed
  refine ⟨hKnown.evolves h, h.dead hDead, ?_⟩
  intro hAlive
  exact h.bare _ _ hKnown.1.1 hDead (hBare (h.alive k hAlive))

theorem RetakeOk.evolves {job : Retake} (h : Evolves w w') (hJob : RetakeOk k w job) :
    RetakeOk k w' job where
  holder := hJob.holder.evolves h
  dead := h.dead hJob.dead
  child := hJob.child
  rest := fun holder hMem => (hJob.rest holder hMem).evolves h

variable {claim : ClaimFile}

theorem Owns.evolves (h : Evolves w w') (hAlive : w'.alive p = true) (hOwns : Owns w p claim) :
    Owns w' p claim :=
  ⟨h.claims claim hOwns.1 (hOwns.2 ▸ hAlive), hOwns.2⟩

variable {purpose : Purpose}

theorem PurposeOk.evolves (h : Evolves w w') (hAlive : w'.alive p = true)
    (hPurpose : PurposeOk k w p purpose) : PurposeOk k w' p purpose := by
  cases purpose with
  | adopt => trivial
  | acquire job attempts => exact RetakeOk.evolves h hPurpose
  | settle job claim => exact ⟨hPurpose.1.evolves h, hPurpose.2.evolves h hAlive⟩
  | giveUp job => exact RetakeOk.evolves h hPurpose

variable {survey : ClaimSurvey}

theorem SurveyOk.evolves (h : Evolves w w') (hSurvey : SurveyOk k w survey) :
    SurveyOk k w' survey where
  live := fun holder hMem => (hSurvey.live holder hMem).evolves h
  dead := fun holder hMem => (hSurvey.dead holder hMem).evolves h
  orphans := hSurvey.orphans

theorem LookOk.evolves {look : Look} (h : Evolves w w') (hLook : LookOk k w look) :
    LookOk k w' look := by
  cases look with
  | record | orphan | reap => trivial
  | child claim => exact Known.evolves h hLook
  | owner holder => exact KnownHolder.evolves h hLook
  | reread holder => exact ⟨hLook.1.evolves h, h.dead hLook.2⟩
  | probe holder record => exact ⟨hLook.1.evolves h, h.dead hLook.2.1, hLook.2.2⟩
  | reapChild holder => exact Doomed.evolves h hLook
  | reapClaim holder =>
      exact ⟨hLook.1.evolves h, h.bare _ _ hLook.1.1.1.1 hLook.1.2.1 hLook.2⟩

theorem PcOk.evolves {pc : Pc} (h : Evolves w w') (hAlive : w'.alive p = true)
    (hPc : PcOk k w p pc) : PcOk k w' p pc := by
  cases pc with
  | idle => trivial
  | list purpose => exact PurposeOk.evolves h hAlive hPc
  | inspect purpose survey look =>
      exact ⟨hPc.1.evolves h hAlive, hPc.2.1.evolves h, hPc.2.2.evolves h⟩
  | retake holders => exact fun holder hMem => (hPc holder hMem).evolves h
  | inspectChild job =>
      exact ⟨hPc.1.evolves h, h.dead hPc.2.1, hPc.2.2.1,
        fun holder hMem => (hPc.2.2.2 holder hMem).evolves h⟩
  | releaseRead job => exact RetakeOk.evolves h hPc
  | releaseChild job => exact RetakeOk.evolves h hPc
  | releaseClaim job =>
      exact ⟨hPc.1.evolves h, h.bare _ _ hPc.1.holder.1.1 hPc.1.dead hPc.2⟩
  | publish job attempts claim => exact ⟨hPc.1.evolves h, hPc.2.1, h.issued _ _ hPc.2.2⟩
  | stageChild job claim => exact ⟨hPc.1.evolves h, hPc.2.evolves h hAlive⟩
  | recordChild job claim => exact ⟨hPc.1.evolves h, hPc.2.evolves h hAlive⟩
  | adopt job claim => exact ⟨hPc.1.evolves h, hPc.2.evolves h hAlive⟩

/-! ## The invariant -/

/-- A claim records the child. -/
def Recorded (k : ClaimOwner) (w : World) : Prop :=
  ∃ claim ∈ w.claims, ⟨claim.claimId, k⟩ ∈ w.childFiles

/-- The daemon has published the claim and is about to record the child. -/
def Attends (claim : ClaimFile) : Pc → Prop
  | .list (.settle _ own) | .inspect (.settle _ own) _ _ => own = claim
  | .stageChild _ own | .recordChild _ own => own = claim
  | _ => False

/-- The claim that a survey or a removal is at. -/
def Look.covers : Look → ClaimId → Prop
  | .child claim, id => claim.claimId = id
  | .owner holder, id | .reread holder, id => holder.claimId = id
  | .reapChild holder, id | .reapClaim holder, id => holder.claimId = id
  | .record, _ | .probe .., _ | .orphan, _ | .reap, _ => False

/-- Whether the survey is over, when there is no name left to look at. -/
def Look.Removes : Look → Prop
  | .orphan | .reap | .reapChild _ | .reapClaim _ => True
  | .record | .child _ | .owner _ | .reread _ | .probe .. => False

/-- The survey has seen nothing live, and has yet to deal with every claim
there. -/
structure Unaware (w : World) (survey : ClaimSurvey) (look : Look) : Prop where
  live : survey.live = []
  probe : ∀ holder record, look ≠ .probe holder record
  todo : look.Removes → survey.todo = []
  covers : ∀ claim ∈ w.claims, claim.claimId ∈ survey.todo ∨
    claim.claimId ∈ survey.dead.map Holder.claimId ∨ look.covers claim.claimId

/-- The daemon carries the child: it will publish a claim for it. -/
def Carries (w : World) : Pc → Prop
  | .releaseClaim _ | .list (.acquire ..) => True
  | .inspect (.acquire ..) survey look => Unaware w survey look
  | .publish .. => w.claims = []
  | _ => False

/-- A claim names the child, or is about to. -/
def Anchored (k : ClaimOwner) (w : World) : Prop :=
  Recorded k w ∨ ∃ claim ∈ w.claims, w.alive claim.owner = true ∧
    Attends claim (w.pc claim.owner)

/-- While the child runs, something leads to it. -/
def Led (k : ClaimOwner) (w : World) : Prop :=
  Anchored k w ∨ ∃ p, w.alive p = true ∧ Carries w (w.pc p)

structure Inv (k : ClaimOwner) (w : World) : Prop where
  issued : ∀ claim ∈ w.claims, w.issued[claim.claimId]? = some claim.owner
  lone : ∀ claim ∈ w.claims, ∀ other ∈ w.claims, claim = other
  children : ∀ file ∈ w.childFiles, file.record = k ∧
    ∃ claim ∈ w.claims, claim.claimId = file.claimId
  pcs : ∀ p, w.alive p = true → PcOk k w p (w.pc p)
  attended : ∀ claim ∈ w.claims, w.alive claim.owner = true →
    ⟨claim.claimId, k⟩ ∈ w.childFiles ∨ Attends claim (w.pc claim.owner)
  adopted : ∀ p child, w.alive p = true → w.children p = some child → Owns w p child.claim
  led : w.alive k = true → Led k w

/-! ## What a step writes -/

/-- A process that drew the claim id and died. -/
def Abandoned (w : World) (id : ClaimId) : Prop :=
  ∃ owner, w.issued[id]? = some owner ∧ w.alive owner = false

def WriteOk (k : ClaimOwner) (w : World) (p : ClaimOwner) : Write → Prop
  | .nothing | .draw => True
  | .unlinkChild id => Abandoned w id
  | .unlinkClaim id => Abandoned w id ∧ Bare w id
  | .publish claim =>
      w.claims = [] ∧ w.childFiles = [] ∧ claim.owner = p ∧ w.issued[claim.claimId]? = some p
  | .recordChild file =>
      file.record = k ∧ ∃ claim, Owns w p claim ∧ claim.claimId = file.claimId
  | .adopt child => Owns w p child.claim

theorem Doomed.abandoned (h : Doomed k w holder) : Abandoned w holder.claimId :=
  ⟨holder.owner, h.1.1.1, h.2.1⟩

theorem RetakeOk.abandoned {job : Retake} (h : RetakeOk k w job) : Abandoned w job.holder.claimId :=
  ⟨job.holder.owner, h.holder.1.1, h.dead⟩

/-- An abandoned id is not the one of a live owner's claim. -/
theorem Abandoned.ne {id other : ClaimId} {owner : ClaimOwner} (h : Abandoned w id)
    (hIssued : w.issued[other]? = some owner) (hAlive : w.alive owner = true) : other ≠ id := by
  rintro rfl
  obtain ⟨dead, hDead, hGone⟩ := h
  rw [hIssued] at hDead
  cases hDead
  simp [hAlive] at hGone

theorem inspected_writeOk (w : World) (p : ClaimOwner) (purpose : Purpose) (survey : ClaimSurvey) :
    WriteOk k w p (inspected w p purpose survey).1 := by
  cases purpose with
  | acquire job attempts =>
      simp only [inspected]
      split_ifs <;> trivial
  | adopt | settle | giveUp => trivial

theorem inspect_writeOk {look : Look} (hSurvey : SurveyOk k w survey) (hLook : LookOk k w look) :
    WriteOk k w p (inspect w p purpose survey look).1 := by
  cases look with
  | record =>
      simp only [inspect]
      split
      · trivial
      · split <;> trivial
  | child claim => trivial
  | owner holder | probe holder record =>
      simp only [inspect]
      split <;> trivial
  | reread holder =>
      simp only [inspect]
      split <;> trivial
  | orphan =>
      simp only [inspect, hSurvey.orphans]
      trivial
  | reap =>
      simp only [inspect]
      split
      · exact inspected_writeOk w p purpose survey
      · split <;> trivial
  | reapChild holder => exact Doomed.abandoned hLook
  | reapClaim holder => exact ⟨hLook.1.abandoned, hLook.2⟩

theorem next_writeOk {pc : Pc} (hPc : PcOk k w p pc) : WriteOk k w p (next w p pc).1 := by
  cases pc with
  | idle | list | stageChild => trivial
  | inspect purpose survey look => exact inspect_writeOk hPc.2.1 hPc.2.2
  | retake holders =>
      cases holders with
      | nil => trivial
      | cons holder rest =>
          simp only [next]
          split <;> trivial
  | inspectChild job =>
      simp only [next]
      split <;> trivial
  | releaseRead job =>
      simp only [next]
      split <;> trivial
  | releaseChild job => exact RetakeOk.abandoned hPc
  | releaseClaim job => exact ⟨hPc.1.abandoned, hPc.2⟩
  | publish job attempts claim =>
      simp only [next]
      split
      · rename_i hEmpty
        exact ⟨hEmpty.1, hEmpty.2, hPc.2.1, hPc.2.2⟩
      · trivial
  | recordChild job claim =>
      simp only [next, hPc.1.child]
      exact ⟨rfl, claim, hPc.2, rfl⟩
  | adopt job claim =>
      simp only [next, hPc.1.child]
      exact hPc.2

@[simp] theorem apply_alive (write : Write) : (w.apply p write).alive = w.alive := by
  cases write <;> rfl

@[simp] theorem apply_pc (write : Write) : (w.apply p write).pc = w.pc := by
  cases write <;> rfl

theorem evolves_apply {write : Write} (hInv : Inv k w) (hAlive : w.alive p = true)
    (hWrite : WriteOk k w p write) : Evolves w (w.apply p write) where
  issued := by
    intro id owner hIssued
    cases write with
    | draw =>
        have hLt := (List.getElem?_eq_some_iff.mp hIssued).1
        simpa [World.apply, List.getElem?_append_left hLt] using hIssued
    | nothing | unlinkChild | unlinkClaim | publish | recordChild | adopt => exact hIssued
  alive := by
    intro q hq
    simpa using hq
  claims := by
    intro claim hMem hOwner
    rw [apply_alive] at hOwner
    cases write with
    | unlinkClaim id =>
        have hNe := hWrite.1.ne (hInv.issued claim hMem) hOwner
        exact List.mem_filter.mpr ⟨hMem, by simpa using hNe⟩
    | publish new => exact List.mem_cons_of_mem _ hMem
    | nothing | unlinkChild | draw | recordChild | adopt => exact hMem
  bare := by
    intro id owner hIssued hDead hBare
    cases write with
    | unlinkChild other =>
        intro file hMem
        exact hBare file (List.mem_filter.mp hMem).1
    | recordChild file =>
        obtain ⟨hRecord, claim, hOwns, hId⟩ := hWrite
        intro other hMem
        rcases List.mem_cons.mp hMem with rfl | hOld
        · -- The recorder lives, so the id is not the dead process's.
          have hAbandoned : Abandoned w id := ⟨owner, hIssued, hDead⟩
          have hIssuedOwn := hInv.issued claim hOwns.1
          rw [hOwns.2, hId] at hIssuedOwn
          exact hAbandoned.ne hIssuedOwn hAlive
        · exact hBare other (List.mem_filter.mp hOld).1
    | nothing | unlinkClaim | draw | publish | adopt => exact hBare

theorem evolves_setPc (w : World) (p : ClaimOwner) (pc : Pc) : Evolves w (w.setPc p pc) where
  issued := fun _ _ h => h
  alive := fun _ h => h
  claims := fun _ h _ => h
  bare := fun _ _ _ _ h => h

theorem evolves_act (hInv : Inv k w) (hAlive : w.alive p = true) : Evolves w (w.act p) := by
  have hApply := evolves_apply hInv hAlive (next_writeOk (hInv.pcs p hAlive))
  exact {
    issued := fun id owner h => hApply.issued id owner h
    alive := fun q h => hApply.alive q h
    claims := fun claim h h' => hApply.claims claim h h'
    bare := fun id owner h h' h'' => hApply.bare id owner h h' h'' }

/-! ## What a step teaches -/

theorem bare_unlinkChild (w : World) (p : ClaimOwner) (id : ClaimId) :
    Bare (w.apply p (.unlinkChild id)) id := by
  intro file hMem
  simpa using (List.mem_filter.mp hMem).2

theorem mem_claims_of_claimAt (h : w.claimAt id = some claim) :
    claim ∈ w.claims ∧ claim.claimId = id :=
  ⟨List.mem_of_find?_eq_some h, by simpa using List.find?_some h⟩

theorem mem_childFiles_of_childOf {record : ClaimOwner} (h : w.childOf id = some record) :
    ⟨id, record⟩ ∈ w.childFiles := by
  obtain ⟨file, hFind, hRecord⟩ := Option.map_eq_some_iff.mp h
  have hMem := List.mem_of_find?_eq_some hFind
  have hId : file.claimId = id := by simpa using List.find?_some hFind
  rwa [← hId, ← hRecord]

theorem bare_of_childOf (h : w.childOf id = none) : Bare w id := by
  intro file hMem
  have hNone := List.find?_eq_none.mp (Option.map_eq_none_iff.mp h) file hMem
  simpa using hNone

theorem childOf_of_mem (hInv : Inv k w) (h : ⟨id, k⟩ ∈ w.childFiles) : w.childOf id = some k := by
  cases hChild : w.childOf id with
  | none => exact absurd rfl (bare_of_childOf hChild _ h)
  | some record =>
      have hRecord : record = k := (hInv.children _ (mem_childFiles_of_childOf hChild)).1
      rw [hRecord]

theorem Inv.known (hInv : Inv k w) (hMem : claim ∈ w.claims) : Known w claim.claimId claim.owner :=
  ⟨hInv.issued claim hMem, fun _ => ⟨claim, hMem, rfl, rfl⟩⟩

theorem SurveyOk.addLive (h : SurveyOk k w survey) (hHolder : KnownHolder k w holder) :
    SurveyOk k w (survey.addLive holder) where
  live := by
    intro other hMem
    rcases List.mem_append.mp hMem with hOld | hNew
    · exact h.live other hOld
    · rw [List.mem_singleton.mp hNew]
      exact hHolder
  dead := h.dead
  orphans := h.orphans

theorem SurveyOk.addDead (h : SurveyOk k w survey) (hHolder : Doomed k w holder) :
    SurveyOk k w (survey.addDead holder) where
  live := h.live
  dead := by
    intro other hMem
    rcases List.mem_append.mp hMem with hOld | hNew
    · exact h.dead other hOld
    · rw [List.mem_singleton.mp hNew]
      exact hHolder
  orphans := h.orphans

/-- Every child record has its claim beside it, so no listing shows an orphan. -/
theorem surveyOk_listing (hInv : Inv k w) : SurveyOk k w w.listing where
  live := by simp [World.listing]
  dead := by simp [World.listing]
  orphans := by
    have hNone : (w.childFiles.filter fun file => (w.claimAt file.claimId).isNone) = [] := by
      rw [List.filter_eq_nil_iff]
      intro file hMem hOrphan
      obtain ⟨-, claim, hClaim, hId⟩ := hInv.children file hMem
      have hFind := List.find?_eq_none.mp (Option.isNone_iff_eq_none.mp hOrphan) claim hClaim
      simp [hId] at hFind
    simp [World.listing, hNone]

theorem inspected_pcOk (hPurpose : PurposeOk k w p purpose) (hSurvey : SurveyOk k w survey) :
    PcOk k (w.apply p (inspected w p purpose survey).1) p (inspected w p purpose survey).2 := by
  cases purpose with
  | adopt => exact hSurvey.live
  | acquire job attempts =>
      have hJob : RetakeOk k w job := hPurpose
      simp only [inspected]
      split_ifs
      · have hDraw : Evolves w (w.apply p .draw) := {
          issued := by
            intro id owner hIssued
            have hLt := (List.getElem?_eq_some_iff.mp hIssued).1
            simpa [World.apply, List.getElem?_append_left hLt] using hIssued
          alive := fun _ h => h
          claims := fun _ h _ => h
          bare := fun _ _ _ _ h => h }
        exact ⟨hJob.evolves hDraw, rfl, by simp [World.apply, Retake.claim]⟩
      · exact hJob.rest
  | settle job claim => exact hPurpose
  | giveUp job =>
      have hJob : RetakeOk k w job := hPurpose
      exact hJob.rest

theorem surveyed_pcOk (hPurpose : PurposeOk k w p purpose) (hSurvey : SurveyOk k w survey) :
    PcOk k w p (surveyed purpose survey) := by
  cases purpose with
  | adopt => exact hSurvey.live
  | acquire | settle | giveUp => exact ⟨hPurpose, hSurvey, trivial⟩

theorem inspect_pcOk {look : Look} (hInv : Inv k w) (hAlive : w.alive p = true)
    (hPurpose : PurposeOk k w p purpose) (hSurvey : SurveyOk k w survey) (hLook : LookOk k w look) :
    PcOk k (w.apply p (inspect w p purpose survey look).1) p
      (inspect w p purpose survey look).2 := by
  cases look with
  | record =>
      simp only [inspect]
      split
      · exact surveyed_pcOk hPurpose hSurvey
      · split
        · exact ⟨hPurpose, ⟨hSurvey.live, hSurvey.dead, hSurvey.orphans⟩, trivial⟩
        · rename_i claim hClaim
          exact ⟨hPurpose, ⟨hSurvey.live, hSurvey.dead, hSurvey.orphans⟩,
            hInv.known (mem_claims_of_claimAt hClaim).1⟩
  | child claim =>
      refine ⟨hPurpose, hSurvey, hLook, ?_⟩
      intro record hRecord
      exact (hInv.children _ (mem_childFiles_of_childOf hRecord)).1
  | owner holder =>
      simp only [inspect]
      split_ifs with hOwner
      · exact ⟨hPurpose, hSurvey.addLive hLook, trivial⟩
      · exact ⟨hPurpose, hSurvey, hLook, by simpa using hOwner⟩
  | reread holder =>
      simp only [inspect]
      split
      · rename_i hNone
        exact ⟨hPurpose, hSurvey.addDead ⟨hLook.1, hLook.2, fun _ => bare_of_childOf hNone⟩,
          trivial⟩
      · rename_i record hRecord
        exact ⟨hPurpose, hSurvey, hLook.1, hLook.2,
          (hInv.children _ (mem_childFiles_of_childOf hRecord)).1⟩
  | probe holder record =>
      obtain ⟨hKnown, hDead, rfl⟩ := hLook
      simp only [inspect]
      split_ifs with hHolds
      · exact ⟨hPurpose, hSurvey.addLive hKnown, trivial⟩
      · refine ⟨hPurpose, hSurvey.addDead ⟨hKnown, hDead, ?_⟩, trivial⟩
        intro hChild
        simp [World.childHolds, hChild] at hHolds
  | orphan =>
      simp only [inspect, hSurvey.orphans]
      exact ⟨hPurpose, hSurvey, trivial⟩
  | reap =>
      simp only [inspect]
      split
      · exact inspected_pcOk hPurpose hSurvey
      · rename_i holder rest hDead
        have hRest : ∀ other ∈ rest, Doomed k w other := by
          intro other hMem
          exact hSurvey.dead other (by rw [hDead]; exact List.mem_cons_of_mem _ hMem)
        split
        · exact ⟨hPurpose, ⟨hSurvey.live, hRest, hSurvey.orphans⟩, trivial⟩
        · exact ⟨hPurpose, ⟨hSurvey.live, hRest, hSurvey.orphans⟩,
            hSurvey.dead holder (by rw [hDead]; exact List.mem_cons_self ..)⟩
  | reapChild holder =>
      have hDoomed : Doomed k w holder := hLook
      have hEvolves : Evolves w (w.apply p (.unlinkChild holder.claimId)) :=
        evolves_apply hInv hAlive hDoomed.abandoned
      exact ⟨hPurpose.evolves hEvolves hAlive, hSurvey.evolves hEvolves,
        hDoomed.evolves hEvolves, bare_unlinkChild w p holder.claimId⟩
  | reapClaim holder =>
      have hEvolves : Evolves w (w.apply p (.unlinkClaim holder.claimId)) :=
        evolves_apply hInv hAlive ⟨hLook.1.abandoned, hLook.2⟩
      exact ⟨hPurpose.evolves hEvolves hAlive, hSurvey.evolves hEvolves, trivial⟩

theorem next_pcOk {pc : Pc} (hInv : Inv k w) (hAlive : w.alive p = true)
    (hPc : PcOk k w p pc) : PcOk k (w.apply p (next w p pc).1) p (next w p pc).2 := by
  have hEvolves := evolves_apply hInv hAlive (next_writeOk hPc)
  have hLater := hPc.evolves hEvolves (by simpa using hAlive)
  cases pc with
  | idle => trivial
  | list purpose => exact ⟨hPc, surveyOk_listing hInv, trivial⟩
  | inspect purpose survey look => exact inspect_pcOk hInv hAlive hPc.1 hPc.2.1 hPc.2.2
  | retake holders =>
      cases holders with
      | nil => trivial
      | cons holder rest =>
          have hHolder : KnownHolder k w holder := hPc holder (List.mem_cons_self ..)
          have hRest : ∀ other ∈ rest, KnownHolder k w other :=
            fun other hMem => hPc other (List.mem_cons_of_mem _ hMem)
          simp only [next]
          split_ifs with hSkip
          · exact hRest
          · obtain ⟨hChild, hOwner⟩ : holder.child ≠ none ∧ w.alive holder.owner = false := by
              simpa using hSkip
            obtain ⟨record, hRecord⟩ := Option.ne_none_iff_exists'.mp hChild
            refine ⟨hHolder, hOwner, ?_, hRest⟩
            rw [hRecord, hHolder.2 record hRecord]
  | inspectChild job =>
      simp only [next]
      split_ifs
      · exact ⟨hPc.1, hPc.2.1, hPc.2.2.1, hPc.2.2.2⟩
      · exact hPc.2.2.2
  | releaseRead job =>
      simp only [next]
      split <;> exact hPc
  | releaseChild job => exact ⟨hLater, bare_unlinkChild w p job.holder.claimId⟩
  | releaseClaim job => exact hLater.1
  | publish job attempts claim =>
      by_cases hEmpty : w.claims = [] ∧ w.childFiles = []
      · simp only [next, if_pos hEmpty] at hLater ⊢
        exact ⟨hLater.1, List.mem_cons_self .., hLater.2.1⟩
      · simp only [next, if_neg hEmpty]
        cases attempts <;> exact hPc.1
  | stageChild job claim => exact hPc
  | recordChild job claim =>
      simp only [next, hPc.1.child] at hLater ⊢
      exact hLater
  | adopt job claim =>
      simp only [next, hPc.1.child] at hLater ⊢
      exact hLater.1.rest

end Stim.Cli.MetroAdoption
