import Stim.Core.OwnershipClaim.Publication

/-!
# Ids, memory, marks and deaths

The changes of a world that leave the file system alone: a process draws a claim
id, changes its own variables, marks or unmarks its claim, spawns a child, or
dies.
-/

namespace Stim.OwnershipClaim

open Interleaving FileTree

variable {Details : Type} {p q : ClaimOwner} {w w' : World Details} {X Y : ClaimId}
  {m : ClaimMode}

/-! ## Drawing an id -/

def World.issue (w : World Details) (p : ClaimOwner) (X : ClaimId) : World Details :=
  { w with issuedTo := Function.update w.issuedTo X (some p) }

theorem World.issuedTo_issue_ne (w : World Details) (h : Y ≠ X) :
    (w.issue p X).issuedTo Y = w.issuedTo Y := by
  simp [issue, h]

theorem Inv.fresh (hInv : Inv w) (hX : w.issuedTo X = none) : X ∉ w.published :=
  fun h => hInv.issued h hX

/-- Nothing holds an id that was never drawn. -/
theorem held_of_issue (hInv : Inv w) (hX : w.issuedTo X = none)
    (h : Held (w.issue p X) m Y) : Held w m Y := by
  obtain ⟨hFile, hKeeper⟩ := h
  refine ⟨hFile, ?_⟩
  rcases hKeeper with ⟨o, ho, hAlive⟩ | hChild
  · refine Or.inl ⟨o, ?_, hAlive⟩
    by_cases hY : Y = X
    · subst hY
      exact absurd (hInv.look_fresh (hInv.fresh hX)) hFile
    · rwa [World.issuedTo_issue_ne w hY] at ho
  · exact Or.inr hChild

theorem ages_of_issue (hInv : Inv w) (hX : w.issuedTo X = none) : Ages w (w.issue p X) :=
  ⟨List.prefix_rfl, fun _ h => h, fun _ h => held_of_issue hInv hX h⟩

theorem inv_issue (hInv : Inv w) (hAlive : w.life p = .alive) (hX : w.issuedTo X = none) :
    Inv (w.issue p X) := by
  have hNe : ∀ {Y o}, w.issuedTo Y = some o → Y ≠ X := by
    rintro Y o hY rfl
    rw [hX] at hY
    cases hY
  have hKeep : ∀ {Y o}, w.issuedTo Y = some o → (w.issue p X).issuedTo Y = some o :=
    fun hY => (World.issuedTo_issue_ne w (hNe hY)).trans hY
  have hKeepNe : ∀ {Y}, w.issuedTo Y ≠ none → (w.issue p X).issuedTo Y ≠ none := by
    intro Y hY
    obtain ⟨o, ho⟩ := Option.ne_none_iff_exists'.mp hY
    rw [hKeep ho]
    exact Option.some_ne_none o
  exact
  { hInv with
    unborn := by
      intro q hq
      obtain ⟨hMemory, hLast, hIssued⟩ := hInv.unborn hq
      refine ⟨hMemory, hLast, ?_⟩
      intro Y hY
      by_cases hYX : Y = X
      · subst hYX
        simp only [World.issue, Function.update_self, Option.some.injEq] at hY
        subst hY
        rw [show (w.issue p Y).life p = w.life p from rfl, hAlive] at hq
        cases hq
      · rw [World.issuedTo_issue_ne w hYX] at hY
        exact hIssued Y hY
    issued := fun hY => hKeepNe (hInv.issued hY)
    claim_file := by
      intro m Y n h
      obtain ⟨hMem, o, s, d, ho, hn⟩ := hInv.claim_file h
      exact ⟨hMem, o, s, d, hKeep ho, hn⟩
    staging_issued := fun h => hKeepNe (hInv.staging_issued h)
    armed := by
      intro q Y c hq hLast
      obtain ⟨hY, hFresh, ⟨s, d, hc⟩, hPlace⟩ := hInv.armed hq hLast
      exact ⟨hKeep hY, hFresh, ⟨s, d, hc⟩, hPlace⟩
    foreign := fun hq hLast => (hInv.foreign hq hLast).imp_left hKeep
    handle := by
      intro q h hq hHas
      obtain ⟨hPath, hIssued, hFile⟩ := hInv.handle hq hHas
      exact ⟨hPath, hKeep hIssued, hFile⟩
    order := fun hY h h' =>
      hInv.order hY (held_of_issue hInv hX h) (held_of_issue hInv hX h')
    marked := by
      intro Y hY hKept
      refine hInv.marked hY (hKept.imp_left ?_)
      rintro ⟨o, ho, hAlive⟩
      refine ⟨o, ?_, hAlive⟩
      have hYX : Y ≠ X := by
        rintro rfl
        exact hInv.fresh hX (hInv.marked_published hY)
      rwa [World.issuedTo_issue_ne w hYX] at ho
    buried := fun hh => (hInv.buried hh).ages (ages_of_issue hInv hX) }

variable {o : Op Details}

theorem guar_issue (hInv : Inv w) (hReady : Ready w p) (hX : w.issuedTo X = none)
    (hNotable : Notable p ((w.issue p X).note p (some o)) o) :
    (contract Details).Guar p w ((w.issue p X).note p (some o)) := by
  refine guar_between hInv hReady ?_ hReady.1 hNotable
  intro hInv'
  have hAges := ages_of_issue (p := p) hInv' hX
  refine ⟨inv_issue hInv' hReady.1 hX, fun q hq => ⟨rfl, hAges, fun hAlive => ?_⟩⟩
  have hNe : ∀ {Y o}, w.issuedTo Y = some o → Y ≠ X := by
    rintro Y o hY rfl
    rw [hX] at hY
    cases hY
  exact { Rely.refl hAlive with
    toAges := hAges
    issued := fun hY => (World.issuedTo_issue_ne w (hNe hY)).trans hY }

/-! ## A process's own memory -/

def World.recall (w : World Details) (p : ClaimOwner) (M : Memory Details)
    (granted : List ClaimId) : World Details :=
  { w with memory := Function.update w.memory p M, granted }

/-- A claim that may be answered as `acquired`: every held claim of the other mode was
published later. -/
def First (w : World Details) (m : ClaimMode) (X : ClaimId) : Prop :=
  w.look (.claim m X) ≠ none ∧ ∀ m' Y, m ≠ m' → Held w m' Y → Precedes w X Y

/-- What `p` may have in its memory. -/
structure Recalls (p : ClaimOwner) (w : World Details) (M : Memory Details)
    (granted : List ClaimId) : Prop where
  handle : ∀ {h}, M.Has h → h.path = claimPath h.mode h.claimId ∧
    w.issuedTo h.claimId = some p ∧ w.look (.claim h.mode h.claimId) ≠ none
  acquired : ∀ {h}, h ∈ M.acquired → h.claimId ∈ granted
  pending : ∀ {h}, h ∈ M.pending → h.mode = .exclusive
  buried : ∀ {h}, h ∈ M.buried → Buried w h
  grows : ∀ {X}, X ∈ w.granted → X ∈ granted
  granted : ∀ {X}, X ∈ granted → X ∈ w.granted ∨ ∃ m, First w m X

theorem Inv.recalls (hInv : Inv w) (hAlive : w.life p = .alive) :
    Recalls p w (w.memory p) w.granted where
  handle := fun h => hInv.handle hAlive h
  acquired := fun h => hInv.acquired_granted h
  pending := fun h => hInv.pending_exclusive h
  buried := fun hh => hInv.buried hh
  grows := id
  granted := Or.inl

theorem Inv.mem_published (hInv : Inv w) (h : w.look (.claim m X) ≠ none) : X ∈ w.published := by
  obtain ⟨n, hn⟩ := Option.ne_none_iff_exists'.mp h
  exact (hInv.claim_file hn).1

variable {granted : List ClaimId} {M : Memory Details}

/-- A process that is `Ready` sweeps nobody's staging directory. -/
theorem Armed.recall {c : Content Details} (h : Armed w q X c) (hReady : Ready w p)
    (hLast : w.last q = some (.writeFile (stagedClaim X) c)) :
    Armed (w.recall p M granted) q X c := by
  obtain ⟨hX, hFresh, hc, hPlace⟩ := h
  refine ⟨hX, hFresh, hc, ?_⟩
  rcases hPlace with hNone | ⟨hDir, hFile | ⟨hNone, r, hAlive, hUnlink, hHolds⟩⟩
  · exact Or.inl hNone
  · exact Or.inr ⟨hDir, Or.inl hFile⟩
  · refine Or.inr ⟨hDir, Or.inr ⟨hNone, r, hAlive, hUnlink, ?_⟩⟩
    have hr : r ≠ p := by
      rintro rfl
      have hSame : q = r := Option.some.inj (hX.symm.trans (hReady.2 X hUnlink))
      rw [← hSame, hLast] at hUnlink
      simp at hUnlink
    simpa [World.recall, hr] using hHolds

theorem inv_recall (hInv : Inv w) (hReady : Ready w p) (hRecalls : Recalls p w M granted) :
    Inv (w.recall p M granted) := by
  have hMemory : ∀ {q}, q ≠ p → (w.recall p M granted).memory q = w.memory q := by
    intro q hq
    simp [World.recall, hq]
  have hOwn : (w.recall p M granted).memory p = M := by simp [World.recall]
  exact
  { hInv with
    unborn := by
      intro q hq
      have hne : q ≠ p := by
        rintro rfl
        rw [show (w.recall q M granted).life q = w.life q from rfl, hReady.1] at hq
        cases hq
      rw [hMemory hne]
      exact hInv.unborn hq
    armed := fun hq hLast => (hInv.armed hq hLast).recall hReady hLast
    foreign := by
      intro q X hq hLast
      by_cases hqp : q = p
      · subst hqp
        exact Or.inl (hReady.2 X hLast)
      · rw [hMemory hqp]
        exact hInv.foreign hq hLast
    handle := by
      intro q h hq hHas
      by_cases hqp : q = p
      · subst hqp
        rw [hOwn] at hHas
        exact hRecalls.handle hHas
      · rw [hMemory hqp] at hHas
        exact hInv.handle hq hHas
    acquired_granted := by
      intro q h hMem
      by_cases hqp : q = p
      · subst hqp
        rw [hOwn] at hMem
        exact hRecalls.acquired hMem
      · rw [hMemory hqp] at hMem
        exact hRecalls.grows (hInv.acquired_granted hMem)
    pending_exclusive := by
      intro q h hMem
      by_cases hqp : q = p
      · subst hqp
        rw [hOwn] at hMem
        exact hRecalls.pending hMem
      · rw [hMemory hqp] at hMem
        exact hInv.pending_exclusive hMem
    granted_published := by
      intro Y hY
      rcases hRecalls.granted hY with hOld | ⟨m, hFile, -⟩
      · exact hInv.granted_published hOld
      · exact hInv.mem_published hFile
    order := by
      intro m₁ m₂ Y Z hY hHeld hHeld' hm
      rcases hRecalls.granted hY with hOld | ⟨m, hFile, hFirst⟩
      · exact hInv.order hOld hHeld hHeld' hm
      · obtain rfl := hInv.one_mode hFile hHeld.1
        exact hFirst m₂ Z hm hHeld'
    marked_granted := fun hY hFile => hRecalls.grows (hInv.marked_granted hY hFile)
    buried := by
      intro q h hh
      by_cases hqp : q = p
      · subst hqp
        rw [hOwn] at hh
        exact hRecalls.buried hh
      · rw [hMemory hqp] at hh
        exact hInv.buried hh }

theorem guar_recall (hInv : Inv w) (hReady : Ready w p) (hRecalls : Recalls p w M granted) :
    (contract Details).Guar p w (w.recall p M granted) := by
  refine ⟨inv_recall hInv hReady hRecalls, fun q hq => ?_⟩
  have hMemory : (w.recall p M granted).memory q = w.memory q := by simp [World.recall, hq]
  exact ⟨hMemory, { Ages.refl w with }, fun hAlive => { Rely.refl hAlive with
    memory := hMemory
    granted := hRecalls.grows }⟩

theorem guar_recall_note (hInv : Inv w) (hReady : Ready w p) (hRecalls : Recalls p w M granted)
    (hNotable : Notable p ((w.recall p M granted).note p (some o)) o) :
    (contract Details).Guar p w ((w.recall p M granted).note p (some o)) := by
  refine guar_between hInv hReady ?_ hReady.1 hNotable
  intro hInv'
  exact guar_recall hInv' (ready_note_none hReady) { hRecalls with }

/-! ## Marks -/

def World.unmark (w : World Details) (X : ClaimId) : World Details :=
  { w with marked := Function.update w.marked X false }

theorem World.marked_unmark (w : World Details) :
    (w.unmark X).marked Y = true ↔ Y ≠ X ∧ w.marked Y = true := by
  by_cases hY : Y = X <;> simp [unmark, hY]

theorem guar_unmark (hInv : Inv w) (hX : w.issuedTo X = some p) :
    (contract Details).Guar p w (w.unmark X) where
  inv := { hInv with
    marked := fun hY hKept => hInv.marked ((World.marked_unmark w).mp hY).2 hKept
    marked_published := fun hY => hInv.marked_published ((World.marked_unmark w).mp hY).2
    marked_granted := fun hY => hInv.marked_granted ((World.marked_unmark w).mp hY).2 }
  others := fun q hq => ⟨rfl, { Ages.refl w with }, fun hAlive => { Rely.refl hAlive with
    marked_own := by
      intro Y hY
      have hYX : Y ≠ X := by
        rintro rfl
        exact issuedTo_ne hq hY hX
      simp [World.unmark, hYX] }⟩

def World.mark (w : World Details) (X : ClaimId) : World Details :=
  { w with
    marked := Function.update w.marked X true
    spawned := Function.update w.spawned X none }

theorem guar_mark (hInv : Inv w) (hX : w.issuedTo X = some p) (hFile : w.look (.claim m X) ≠ none)
    (hChild : w.look (.child m X) = some (.file (.child none)))
    (hGranted : m = .shared → X ∈ w.granted) :
    (contract Details).Guar p w (w.mark X) where
  inv := { hInv with
    marked := by
      intro Y hY hKept
      by_cases hYX : Y = X
      · subst hYX
        exact ⟨m, none, hFile, hChild, Or.inl rfl⟩
      · have hMarked : w.marked Y = true := by simpa [World.mark, hYX] using hY
        have hKept' : Kept w Y := by simpa [Kept, World.mark, hYX, OwnerAlive] using hKept
        obtain ⟨m', r, hFile', hChild', hr⟩ := hInv.marked hMarked hKept'
        exact ⟨m', r, hFile', hChild', by simpa [World.mark, hYX] using hr⟩
    marked_published := by
      intro Y hY
      by_cases hYX : Y = X
      · subst hYX
        exact hInv.mem_published hFile
      · exact hInv.marked_published (by simpa [World.mark, hYX] using hY)
    marked_granted := by
      intro Y hY hShared
      by_cases hYX : Y = X
      · subst hYX
        exact hGranted (hInv.one_mode hFile hShared)
      · exact hInv.marked_granted (by simpa [World.mark, hYX] using hY) hShared
    spawned_born := by
      intro Y c hY
      by_cases hYX : Y = X
      · subst hYX
        simp [World.mark] at hY
      · exact hInv.spawned_born (X := Y) (by simpa [World.mark, hYX] using hY)
    spawned_leader := by
      intro Y c hY
      by_cases hYX : Y = X
      · subst hYX
        simp [World.mark] at hY
      · exact hInv.spawned_leader (X := Y) (by simpa [World.mark, hYX] using hY) }
  others := fun q hq => ⟨rfl, { Ages.refl w with }, fun hAlive => by
    have hNe : ∀ {Y}, w.issuedTo Y = some q → Y ≠ X := by
      rintro Y hY rfl
      exact issuedTo_ne hq hY hX
    exact { Rely.refl hAlive with
      marked_own := fun hY => by simp [World.mark, hNe hY]
      spawned_own := fun hY => by simp [World.mark, hNe hY] }⟩

/-! ## Children and deaths -/

/-- A change after which fewer processes and process groups are alive. -/
structure Withers (w w' : World Details) : Prop where
  tree : w'.tree = w.tree
  issuedTo : w'.issuedTo = w.issuedTo
  published : w'.published = w.published
  life : ∀ {o}, w'.life o = .alive → w.life o = .alive
  group : ∀ {c}, w'.group c = .alive → w.group c = .alive

theorem Withers.look (h : Withers w w') (s : Spot) : w'.look s = w.look s := by
  simp [World.look, h.tree]

theorem Withers.held (h : Withers w w') (hHeld : Held w' m X) : Held w m X := by
  obtain ⟨hFile, hKeeper⟩ := hHeld
  refine ⟨h.look _ ▸ hFile, ?_⟩
  rcases hKeeper with ⟨o, ho, hAlive⟩ | ⟨r, hChild, hGroup⟩
  · exact Or.inl ⟨o, h.issuedTo ▸ ho, h.life hAlive⟩
  · exact Or.inr ⟨r, h.look _ ▸ hChild, fun c hc => h.group (hGroup c hc)⟩

theorem Withers.ages (h : Withers w w') : Ages w w' :=
  ⟨h.published ▸ List.prefix_rfl, fun _ hn => h.look _ ▸ hn, fun _ hHeld => h.held hHeld⟩

def World.die (w : World Details) (p : ClaimOwner) : World Details :=
  { w with
    life := Function.update w.life p .dead
    memory := Function.update w.memory p Memory.empty }

theorem World.life_die (w : World Details) (h : (w.die p).life q = .alive) :
    q ≠ p ∧ w.life q = .alive := by
  by_cases hq : q = p
  · simp [die, hq] at h
  · exact ⟨hq, by simpa [die, hq] using h⟩

/-- The death of a process that has not just emptied another's staging directory. -/
theorem guar_die (hInv : Inv w) (hAlive : w.life p = .alive)
    (hCalm : ∀ X q c, w.life q = .alive → w.last q = some (.writeFile (stagedClaim X) c) →
      w.last p ≠ some (.unlink (stagedClaim X))) : (contract Details).Guar p w (w.die p) := by
  have hWithers : Withers w (w.die p) :=
    ⟨rfl, rfl, rfl, fun h => (w.life_die h).2, fun h => h⟩
  have hMemory : ∀ {q}, q ≠ p → (w.die p).memory q = w.memory q := by
    intro q hq
    simp [World.die, hq]
  have hEmpty : (w.die p).memory p = Memory.empty := by simp [World.die]
  have hKept : ∀ {X}, Kept (w.die p) X → Kept w X := fun h =>
    h.imp_left fun ⟨o, ho, hLife⟩ => ⟨o, ho, (w.life_die hLife).2⟩
  constructor
  · exact
    { hInv with
      unborn := by
        intro q hq
        have hne : q ≠ p := by
          rintro rfl
          simp [World.die] at hq
        rw [hMemory hne]
        exact hInv.unborn (by simpa [World.die, hne] using hq)
      armed := by
        intro q X c hq hLast
        obtain ⟨hq, hqAlive⟩ := w.life_die hq
        obtain ⟨hX, hFresh, hc, hPlace⟩ := hInv.armed hqAlive hLast
        refine ⟨hX, hFresh, hc, ?_⟩
        rcases hPlace with hNone | ⟨hDir, hFile | ⟨hNone, r, hr, hUnlink, hHolds⟩⟩
        · exact Or.inl hNone
        · exact Or.inr ⟨hDir, Or.inl hFile⟩
        · have hrp : r ≠ p := by
            rintro rfl
            exact hCalm X q c hqAlive hLast hUnlink
          refine Or.inr ⟨hDir, Or.inr ⟨hNone, r, ?_, hUnlink, ?_⟩⟩
          · simpa [World.die, hrp] using hr
          · rw [hMemory hrp]
            exact hHolds
      foreign := by
        intro q X hq hLast
        obtain ⟨hq, hqAlive⟩ := w.life_die hq
        rw [hMemory hq]
        exact hInv.foreign hqAlive hLast
      handle := by
        intro q h hq hHas
        obtain ⟨hq, hqAlive⟩ := w.life_die hq
        rw [hMemory hq] at hHas
        exact hInv.handle hqAlive hHas
      acquired_granted := by
        intro q h hMem
        by_cases hq : q = p
        · rw [hq, hEmpty] at hMem
          cases hMem
        · exact hInv.acquired_granted (hMemory hq ▸ hMem)
      pending_exclusive := by
        intro q h hMem
        by_cases hq : q = p
        · rw [hq, hEmpty] at hMem
          cases hMem
        · exact hInv.pending_exclusive (hMemory hq ▸ hMem)
      order := fun hX h h' => hInv.order hX (hWithers.held h) (hWithers.held h')
      marked := fun hX h => hInv.marked hX (hKept h)
      spawned_leader := fun hX hLife => hInv.spawned_leader hX (w.life_die hLife).2
      buried := by
        intro q h hh
        by_cases hq : q = p
        · rw [hq, hEmpty] at hh
          cases hh
        · have hBuried := hInv.buried (hMemory hq ▸ hh)
          exact hBuried.ages hWithers.ages }
  · intro q hq
    refine ⟨hMemory hq, hWithers.ages, fun hqAlive => { Rely.refl hqAlive with
      toAges := hWithers.ages
      alive := by simpa [World.die, hq] using hqAlive
      memory := hMemory hq
      life := ?_ }⟩
    intro o ho
    by_cases hop : o = p <;> simp [World.die, hop, ho]

/-- The end of a process group. -/
theorem groupEnds_spec {oracle : Oracle} (hInv : Inv w) (h : groupEnds oracle w = some w') :
    Inv w' ∧ ∀ p, (contract Details).rely p w w' := by
  unfold groupEnds at h
  split at h
  · rename_i hLeader
    cases h
    have hGroup : ∀ {c}, Function.update w.group oracle.leader .dead c = .alive →
        w.group c = .alive := by
      intro c hc
      by_cases hcl : c = oracle.leader
      · simp [hcl] at hc
      · simpa [hcl] using hc
    have hBorn : ∀ {c}, w.group c ≠ .unborn →
        Function.update w.group oracle.leader .dead c ≠ .unborn := by
      intro c hc
      by_cases hcl : c = oracle.leader <;> simp [hcl, hc]
    have hWithers : Withers w
        { w with group := Function.update w.group oracle.leader .dead } :=
      ⟨rfl, rfl, rfl, fun h => h, hGroup⟩
    refine ⟨{ hInv with
      child_file := ?_
      order := fun hX h h' => hInv.order hX (hWithers.held h) (hWithers.held h')
      marked := fun hX h => hInv.marked hX (h.imp_right fun ⟨c, hc, hAlive⟩ =>
        ⟨c, hc, hGroup hAlive⟩)
      spawned_born := fun hX => ⟨hBorn (hInv.spawned_born hX).1, (hInv.spawned_born hX).2⟩
      spawned_leader := ?_
      buried := fun hh => (hInv.buried hh).ages hWithers.ages }, ?_⟩
    · intro m X n hn
      obtain ⟨r, hr, hrBorn⟩ := hInv.child_file hn
      exact ⟨r, hr, fun c hc => ⟨hBorn (hrBorn c hc).1, (hrBorn c hc).2⟩⟩
    · intro X c hX hLife
      have hcl : c ≠ oracle.leader := by
        rintro rfl
        exact absurd (hLeader.symm.trans hLife) (by simp)
      exact (Function.update_of_ne hcl ..).trans (hInv.spawned_leader hX hLife)
    · intro p
      refine ⟨rfl, hWithers.ages, fun hAlive => { Rely.refl hAlive with
        toAges := hWithers.ages
        group_dead := ?_ }⟩
      intro c hc
      show Function.update w.group oracle.leader .dead c = .dead
      by_cases hcl : c = oracle.leader <;> simp [hcl, hc]
  · cases h

def World.spawn (w : World Details) (X : ClaimId) (child : ClaimOwner) : World Details :=
  { w with
    life := Function.update w.life child .alive
    group := Function.update w.group child .alive
    spawned := Function.update w.spawned X (some child) }

variable {child : ClaimOwner}

/-- A child that is just born keeps no claim but the one it was spawned for. -/
theorem held_of_spawn (hInv : Inv w) (hLife : w.life child = .unborn)
    (hGroup : w.group child = .unborn) (h : Held (w.spawn X child) m Y) : Held w m Y := by
  obtain ⟨hFile, hKeeper⟩ := h
  refine ⟨hFile, ?_⟩
  rcases hKeeper with ⟨o, ho, hAlive⟩ | ⟨r, hChild, hr⟩
  · refine Or.inl ⟨o, ho, ?_⟩
    have hne : o ≠ child := by
      rintro rfl
      exact hInv.born ho hLife
    simpa [World.spawn, hne] using hAlive
  · refine Or.inr ⟨r, hChild, ?_⟩
    intro c hc
    obtain ⟨r', hr', hBorn⟩ := hInv.child_file hChild
    have hrr : r = r' := by simpa using hr'
    have hne : c ≠ child := by
      rintro rfl
      exact (hBorn c (hrr ▸ hc)).1 hGroup
    simpa [World.spawn, hne] using hr c hc

theorem ages_of_spawn (hInv : Inv w) (hLife : w.life child = .unborn)
    (hGroup : w.group child = .unborn) : Ages w (w.spawn X child) :=
  ⟨List.prefix_rfl, fun _ h => h, fun _ h => held_of_spawn hInv hLife hGroup h⟩

theorem inv_spawn (hInv : Inv w) (hX : w.issuedTo X = some p) (hAlive : w.life p = .alive)
    (hNone : w.spawned X = none) (hLife : w.life child = .unborn)
    (hGroup : w.group child = .unborn) (hPid : 1 < child.pid) : Inv (w.spawn X child) := by
  have hAliveOld : ∀ {q}, (w.spawn X child).life q = .alive → q = child ∨
      w.life q = .alive := by
    intro q hq
    by_cases hqc : q = child
    · exact Or.inl hqc
    · exact Or.inr (by simpa [World.spawn, hqc] using hq)
  obtain ⟨hEmpty, hLast, hNotIssued⟩ := hInv.unborn hLife
  have hBorn : ∀ {c}, w.group c ≠ .unborn → (w.spawn X child).group c ≠ .unborn := by
    intro c hc
    by_cases hcc : c = child <;> simp [World.spawn, hcc, hc]
  exact
  { hInv with
    unborn := by
      intro q hq
      have hqc : q ≠ child := by
        rintro rfl
        simp [World.spawn] at hq
      exact hInv.unborn (by simpa [World.spawn, hqc] using hq)
    child_file := by
      intro m Y n hn
      obtain ⟨r, hr, hrBorn⟩ := hInv.child_file hn
      exact ⟨r, hr, fun c hc => ⟨hBorn (hrBorn c hc).1, (hrBorn c hc).2⟩⟩
    armed := by
      intro q Y c hq hLastq
      rcases hAliveOld hq with rfl | hqAlive
      · rw [show (w.spawn X q).last q = w.last q from rfl, hLast] at hLastq
        cases hLastq
      · obtain ⟨hY, hFresh, hc, hPlace⟩ := hInv.armed hqAlive hLastq
        refine ⟨hY, hFresh, hc, ?_⟩
        rcases hPlace with hNone | ⟨hDir, hFile | ⟨hNone, r, hr, hUnlink, hHolds⟩⟩
        · exact Or.inl hNone
        · exact Or.inr ⟨hDir, Or.inl hFile⟩
        · refine Or.inr ⟨hDir, Or.inr ⟨hNone, r, ?_, hUnlink, hHolds⟩⟩
          by_cases hrc : r = child <;> simp [World.spawn, hrc, hr]
    foreign := by
      intro q Y hq hLastq
      rcases hAliveOld hq with rfl | hqAlive
      · rw [show (w.spawn X q).last q = w.last q from rfl, hLast] at hLastq
        cases hLastq
      · exact hInv.foreign hqAlive hLastq
    handle := by
      intro q h hq hHas
      rcases hAliveOld hq with rfl | hqAlive
      · rw [show (w.spawn X q).memory q = w.memory q from rfl, hEmpty] at hHas
        rcases hHas with hHas | hHas <;> cases hHas
      · exact hInv.handle hqAlive hHas
    order := fun hY h h' => hInv.order hY (held_of_spawn hInv hLife hGroup h)
      (held_of_spawn hInv hLife hGroup h')
    marked := by
      intro Y hY hKept
      have hOwner : OwnerAlive (w.spawn X child) Y → OwnerAlive w Y := by
        rintro ⟨o, ho, hoAlive⟩
        rcases hAliveOld hoAlive with rfl | hoAlive
        · exact absurd ho (hNotIssued Y)
        · exact ⟨o, ho, hoAlive⟩
      by_cases hYX : Y = X
      · subst hYX
        obtain ⟨m, r, hFile, hChild, hr⟩ := hInv.marked hY (Or.inl ⟨p, hX, hAlive⟩)
        rw [hNone, or_self] at hr
        exact ⟨m, r, hFile, hChild, Or.inl hr⟩
      · have hKept' : Kept w Y := by
          rcases hKept with hO | ⟨c, hc, hcAlive⟩
          · exact Or.inl (hOwner hO)
          · have hc' : w.spawned Y = some c := by simpa [World.spawn, hYX] using hc
            refine Or.inr ⟨c, hc', ?_⟩
            have hcc : c ≠ child := by
              rintro rfl
              exact (hInv.spawned_born hc').1 hGroup
            simpa [World.spawn, hcc] using hcAlive
        obtain ⟨m, r, hFile, hChild, hr⟩ := hInv.marked hY hKept'
        exact ⟨m, r, hFile, hChild, by simpa [World.spawn, hYX] using hr⟩
    spawned_born := by
      intro Y c hY
      by_cases hYX : Y = X
      · subst hYX
        simp only [World.spawn, Function.update_self, Option.some.injEq] at hY
        subst hY
        exact ⟨by simp [World.spawn], hPid⟩
      · have hOld := hInv.spawned_born (X := Y) (by simpa [World.spawn, hYX] using hY)
        exact ⟨hBorn hOld.1, hOld.2⟩
    spawned_leader := by
      intro Y c hY hAlivec
      by_cases hcc : c = child
      · subst hcc
        simp [World.spawn]
      · have hOld : w.spawned Y = some c := by
          by_cases hYX : Y = X
          · subst hYX
            simp only [World.spawn, Function.update_self, Option.some.injEq] at hY
            exact absurd hY.symm hcc
          · simpa [World.spawn, hYX] using hY
        have hLifec : w.life c = .alive := by simpa [World.spawn, hcc] using hAlivec
        simpa [World.spawn, hcc] using hInv.spawned_leader hOld hLifec
    buried := fun hh => (hInv.buried hh).ages (ages_of_spawn hInv hLife hGroup) }

theorem guar_spawn (hInv : Inv w) (hReady : Ready w p) (hX : w.issuedTo X = some p)
    (hNone : w.spawned X = none) (hLife : w.life child = .unborn)
    (hGroup : w.group child = .unborn) (hPid : 1 < child.pid)
    (hNotable : Notable p ((w.spawn X child).note p (some o)) o) :
    (contract Details).Guar p w ((w.spawn X child).note p (some o)) := by
  have hpc : p ≠ child := by
    rintro rfl
    rw [hReady.1] at hLife
    cases hLife
  refine guar_between hInv hReady ?_ (by simp [World.spawn, hpc, hReady.1]) hNotable
  intro hInv'
  refine ⟨inv_spawn (w := w.note p none) hInv' hX hReady.1 hNone hLife hGroup hPid,
    fun q hq => ⟨rfl, ages_of_spawn (w := w.note p none) hInv' hLife hGroup,
      fun hAlive => ?_⟩⟩
  exact { Rely.refl hAlive with
    toAges := ages_of_spawn (w := w.note p none) hInv' hLife hGroup
    alive := by
      show Function.update w.life child .alive q = .alive
      by_cases hqc : q = child
      · simp [hqc]
      · exact (Function.update_of_ne hqc ..).trans hAlive
    life := by
      intro o ho
      show Function.update w.life child .alive o = .dead
      have hoc : o ≠ child := by
        rintro rfl
        exact absurd (hLife.symm.trans ho) (by simp)
      exact (Function.update_of_ne hoc ..).trans ho
    group_dead := by
      intro c hc
      show Function.update w.group child .alive c = .dead
      have hcc : c ≠ child := by
        rintro rfl
        exact absurd (hGroup.symm.trans hc) (by simp)
      exact (Function.update_of_ne hcc ..).trans hc
    spawned_own := by
      intro Y hY
      have hYX : Y ≠ X := by
        rintro rfl
        exact issuedTo_ne hq hY hX
      show Function.update w.spawned X (some child) Y = w.spawned Y
      simp [hYX] }

end Stim.OwnershipClaim
