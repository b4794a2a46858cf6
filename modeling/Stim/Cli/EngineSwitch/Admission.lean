import Stim.Cli.EngineSwitch

/-!
# An admitted operation keeps its engine

The flip lock orders an `admit` and a flip: a flip that was decided under the lock when
every claim had drained holds every later `admit` off until it is over.  The order is lost
when a promotion takes the lock on a reading of the claims that is out of date, when an
`admit` gives up waiting, and when a stimd dies and leaves its `engine-select` running.
-/

namespace Stim.Cli

open SwitchWorld

variable {build : String} {w w' : SwitchWorld}

/-- A step that keeps the order: a promotion takes the flip lock while every claim is
drained, an `admit` does not give up while another process flips, and a stimd does not die
before its child. -/
def SwitchAction.Careful (w : SwitchWorld) : SwitchAction → Prop
  | .takeFlipLock _ => w.allDrained = true
  | .deadline _ => ∀ holder, w.flipLock = some holder → ∃ k, holder = .probe k
  | .die i => w.children i = none
  | _ => True

/-- A process will move the pointer without another look at the claims. -/
def Committed (w : SwitchWorld) : Prop :=
  (∃ i staged, w.flips i = .running staged) ∨
    ∃ j promoter, w.promoters j = some promoter ∧ promoter.stage = .flipLocked

structure Guarded (build : String) (w : SwitchWorld) : Prop where
  /-- A good admission's stimd records pinned work. -/
  pinned : ∀ k entry, w.admits k = some entry → entry.live = true →
    w.claims.get entry.stimd = some false
  child : ∀ i child, w.children i = some child → ∃ staged, w.flips i = .running staged
  flipLocked : ∀ i staged, w.flips i = .flipLocked staged → w.flipLock = some (.stimd i)
  running : ∀ i staged, w.flips i = .running staged → w.flipLock = some (.stimd i)
  promoter : ∀ j promoter, w.promoters j = some promoter → promoter.stage = .flipLocked →
    w.flipLock = some (.promoter j)
  probed : ∀ k entry, w.admits k = some entry → entry.phase = .probed →
    w.flipLock = some (.probe k)
  /-- While a process is about to move the pointer, nobody is past the probe. -/
  committed : Committed w → ∀ k entry, w.admits k = some entry → entry.live = true →
    entry.phase = .probing
  admitted : ∀ k entry, w.admits k = some entry → entry.live = true →
    entry.phase = .returned none → w.current = build

theorem guarded_initial (build : String) : Guarded build (.initial build) := by
  refine ⟨?_, ?_, ?_, ?_, ?_, ?_, ?_, ?_⟩ <;> simp [SwitchWorld.initial]

theorem Guarded.not_committed (h : Guarded build w)
    (hLock : ∀ holder, w.flipLock = some holder → ∃ k, holder = .probe k) : ¬ Committed w := by
  rintro (⟨i, staged, hFlip⟩ | ⟨j, promoter, hPromoter, hStage⟩)
  · obtain ⟨k, hEq⟩ := hLock _ (h.running i staged hFlip)
    cases hEq
  · obtain ⟨k, hEq⟩ := hLock _ (h.promoter j promoter hPromoter hStage)
    cases hEq

variable {entry : Admit}

/-- While every claim is drained there is no good admission. -/
theorem Guarded.no_live (h : Guarded build w) (hDrained : w.allDrained = true) {k : Nat}
    (hAdmit : w.admits k = some entry) : entry.live = false := by
  by_contra hLive
  have hPinned := h.pinned k entry hAdmit (by simpa using hLive)
  have hMem := OrderedMap.get_eq_some_iff.mp hPinned
  have hValue : false ∈ w.claims.values := List.mem_map.mpr ⟨_, hMem, rfl⟩
  have hTrue := List.all_eq_true.mp hDrained false hValue
  cases hTrue

/-- The flips and the pointer stay, and an admission at most stops being good. -/
theorem Guarded.of_admits (h : Guarded build w) (hFlips : w'.flips = w.flips)
    (hChildren : w'.children = w.children) (hPromoters : w'.promoters = w.promoters)
    (hLock : w'.flipLock = w.flipLock) (hCurrent : w'.current = w.current)
    (hAdmits : ∀ k entry, w'.admits k = some entry → ∃ before, w.admits k = some before ∧
      before.phase = entry.phase ∧ (entry.live = true →
        before.live = true ∧ w'.claims.get entry.stimd = some false)) : Guarded build w' := by
  have hCommitted : Committed w' → Committed w := by
    unfold Committed
    rw [hFlips, hPromoters]
    exact id
  refine ⟨?_, ?_, ?_, ?_, ?_, ?_, ?_, ?_⟩
  · intro k entry hAdmit hLive
    obtain ⟨before, -, -, hGood⟩ := hAdmits k entry hAdmit
    exact (hGood hLive).2
  · rw [hChildren, hFlips]
    exact h.child
  · rw [hFlips, hLock]
    exact h.flipLocked
  · rw [hFlips, hLock]
    exact h.running
  · rw [hPromoters, hLock]
    exact h.promoter
  · intro k entry hAdmit hPhase
    obtain ⟨before, hBefore, hSame, -⟩ := hAdmits k entry hAdmit
    rw [hLock]
    exact h.probed k before hBefore (hSame.trans hPhase)
  · intro hNow k entry hAdmit hLive
    obtain ⟨before, hBefore, hSame, hGood⟩ := hAdmits k entry hAdmit
    rw [← hSame]
    exact h.committed (hCommitted hNow) k before hBefore (hGood hLive).1
  · intro k entry hAdmit hLive hPhase
    obtain ⟨before, hBefore, hSame, hGood⟩ := hAdmits k entry hAdmit
    rw [hCurrent]
    exact h.admitted k before hBefore (hGood hLive).1 (hSame.trans hPhase)

/-- After a stimd's admissions are void, the good ones are other stimds'. -/
theorem void_admits {i k : Nat} (hAdmit : (w.void i).admits k = some entry) :
    ∃ before, w.admits k = some before ∧ before.phase = entry.phase ∧ (entry.live = true →
      before = entry ∧ entry.stimd ≠ i) := by
  obtain ⟨before, hBefore, rfl⟩ := Option.map_eq_some_iff.mp hAdmit
  refine ⟨before, hBefore, ?_, ?_⟩
  · split <;> rfl
  · split
    · exact fun hLive => by cases hLive
    · rename_i hOther
      exact fun _ => ⟨rfl, hOther⟩

variable {i : Nat}

/-- A stimd's claim may change once its admissions are void. -/
theorem Guarded.void {claims : OrderedMap Nat Bool} (h : Guarded build w)
    (hClaims : ∀ i', i' ≠ i → claims.get i' = w.claims.get i') :
    Guarded build { w.void i with claims } := by
  refine h.of_admits rfl rfl rfl rfl rfl ?_
  intro k entry hAdmit
  obtain ⟨before, hBefore, hSame, hGood⟩ := void_admits hAdmit
  refine ⟨before, hBefore, hSame, fun hLive => ?_⟩
  obtain ⟨rfl, hOther⟩ := hGood hLive
  refine ⟨hLive, ?_⟩
  show claims.get before.stimd = some false
  rw [hClaims _ hOther]
  exact h.pinned k before hBefore hLive

theorem get_record (i i' : Nat) (drained : Bool) : (w.record i drained).claims.get i' =
    if i' = i ∧ (w.claims.get i).isSome then some drained else w.claims.get i' := by
  unfold SwitchWorld.record
  split
  · rename_i hSome
    rw [OrderedMap.get_set]
    simp [hSome]
  · rename_i hNone
    simp [hNone]

theorem Guarded.record (h : Guarded build w) : Guarded build (w.record i false) := by
  have hGet := get_record (w := w) i
  have hRest : (w.record i false).flips = w.flips ∧ (w.record i false).children = w.children ∧
      (w.record i false).promoters = w.promoters ∧ (w.record i false).flipLock = w.flipLock ∧
      (w.record i false).current = w.current ∧ (w.record i false).admits = w.admits := by
    unfold SwitchWorld.record
    split <;> exact ⟨rfl, rfl, rfl, rfl, rfl, rfl⟩
  obtain ⟨hFlips, hChildren, hPromoters, hLock, hCurrent, hAdmits⟩ := hRest
  refine h.of_admits hFlips hChildren hPromoters hLock hCurrent ?_
  intro k entry hAdmit
  rw [hAdmits] at hAdmit
  refine ⟨entry, hAdmit, rfl, fun hLive => ⟨hLive, ?_⟩⟩
  rw [hGet, h.pinned k entry hAdmit hLive]
  exact ite_self _

/-- An `admit` moves on, and is not at its probe. -/
theorem Guarded.setAdmit {k : Nat} (h : Guarded build w) (hPhase : entry.phase ≠ .probed)
    (hPinned : entry.live = true → w.claims.get entry.stimd = some false)
    (hCommitted : Committed w → entry.live = true → entry.phase = .probing)
    (hAdmitted : entry.live = true → entry.phase = .returned none → w.current = build) :
    Guarded build (w.setAdmit k entry) := by
  refine ⟨?_, h.child, h.flipLocked, h.running, h.promoter, ?_, ?_, ?_⟩
  · intro k' entry' hAdmit
    simp only [SwitchWorld.setAdmit, Function.update_apply] at hAdmit
    split at hAdmit
    · cases hAdmit
      exact hPinned
    · exact h.pinned k' entry' hAdmit
  · intro k' entry' hAdmit
    simp only [SwitchWorld.setAdmit, Function.update_apply] at hAdmit
    split at hAdmit
    · cases hAdmit
      exact fun hProbed => absurd hProbed hPhase
    · exact h.probed k' entry' hAdmit
  · intro hNow k' entry' hAdmit
    simp only [SwitchWorld.setAdmit, Function.update_apply] at hAdmit
    split at hAdmit
    · cases hAdmit
      exact hCommitted hNow
    · exact h.committed hNow k' entry' hAdmit
  · intro k' entry' hAdmit
    simp only [SwitchWorld.setAdmit, Function.update_apply] at hAdmit
    split at hAdmit
    · cases hAdmit
      exact hAdmitted
    · exact h.admitted k' entry' hAdmit

/-- The staged build and the promotion lock do not matter here. -/
theorem Guarded.records (h : Guarded build w) (staged : Option String)
    (lock : Option LockHolder) : Guarded build { w with staged, promotionLock := lock } :=
  ⟨h.pinned, h.child, h.flipLocked, h.running, h.promoter, h.probed, h.committed, h.admitted⟩

/-- Nobody is past the probe, so the pointer may move. -/
theorem Guarded.move (h : Guarded build w) (hNow : Committed w) (current : String) :
    Guarded build { w with current } := by
  refine ⟨h.pinned, h.child, h.flipLocked, h.running, h.promoter, h.probed, h.committed, ?_⟩
  intro k entry hAdmit hLive hPhase
  rw [h.committed hNow k entry hAdmit hLive] at hPhase
  cases hPhase

theorem Guarded.setChild {child : Option FlipChild} (h : Guarded build w)
    (hChild : child.isSome → ∃ staged, w.flips i = .running staged) :
    Guarded build { w with children := Function.update w.children i child } := by
  refine ⟨h.pinned, ?_, h.flipLocked, h.running, h.promoter, h.probed, h.committed, h.admitted⟩
  intro i' child' hSome
  simp only [Function.update_apply] at hSome
  split at hSome
  · rename_i hEq
    rw [hEq]
    exact hChild (by rw [hSome]; rfl)
  · exact h.child i' child' hSome

/-- A stimd's flip moves on without the flip lock. -/
theorem Guarded.setFlip {stage : FlipStage} (h : Guarded build w) (hNone : w.children i = none)
    (hStage : ∀ staged, stage ≠ .flipLocked staged ∧ stage ≠ .running staged) :
    Guarded build (w.setFlip i stage) := by
  have hFlips : ∀ i' stage', (w.setFlip i stage).flips i' = stage' → stage' ≠ stage →
      i' ≠ i ∧ w.flips i' = stage' := by
    intro i' stage' hFlip hNe
    simp only [SwitchWorld.setFlip, Function.update_apply] at hFlip
    split at hFlip
    · exact absurd hFlip.symm hNe
    · rename_i hOther
      exact ⟨hOther, hFlip⟩
  refine ⟨h.pinned, ?_, ?_, ?_, h.promoter, h.probed, ?_, h.admitted⟩
  · intro i' child hChild
    have hOther : i' ≠ i := by
      rintro rfl
      rw [show w.children i' = some child from hChild] at hNone
      cases hNone
    obtain ⟨staged, hFlip⟩ := h.child i' child hChild
    exact ⟨staged, (Function.update_of_ne hOther ..).trans hFlip⟩
  · intro i' staged hFlip
    exact h.flipLocked i' staged (hFlips i' _ hFlip (hStage staged).1.symm).2
  · intro i' staged hFlip
    exact h.running i' staged (hFlips i' _ hFlip (hStage staged).2.symm).2
  · rintro (⟨i', staged, hFlip⟩ | hPromoter)
    · exact h.committed (.inl ⟨i', staged, (hFlips i' _ hFlip (hStage staged).2.symm).2⟩)
    · exact h.committed (.inr hPromoter)

theorem Guarded.setPromoter {j : Nat} {promoter : Promoter} (h : Guarded build w)
    (hStage : promoter.stage ≠ .flipLocked) : Guarded build (w.setPromoter j promoter) := by
  have hPromoters : ∀ j' promoter', (w.setPromoter j promoter).promoters j' = some promoter' →
      promoter'.stage = .flipLocked → w.promoters j' = some promoter' := by
    intro j' promoter' hSome hLocked
    simp only [SwitchWorld.setPromoter, Function.update_apply] at hSome
    split at hSome
    · cases hSome
      exact absurd hLocked hStage
    · exact hSome
  refine ⟨h.pinned, h.child, h.flipLocked, h.running, ?_, h.probed, ?_, h.admitted⟩
  · intro j' promoter' hSome hLocked
    exact h.promoter j' promoter' (hPromoters j' promoter' hSome hLocked) hLocked
  · rintro (hFlip | ⟨j', promoter', hSome, hLocked⟩)
    · exact h.committed (.inl hFlip)
    · exact h.committed (.inr ⟨j', promoter', hPromoters j' promoter' hSome hLocked, hLocked⟩)

/-- A process that will not move the pointer lets go of its locks. -/
theorem Guarded.unlock {holder : LockHolder} (h : Guarded build w)
    (hStimd : ∀ i, holder = .stimd i → w.flips i = .idle)
    (hPromoter : ∀ j promoter, holder = .promoter j → w.promoters j = some promoter →
      promoter.stage ≠ .flipLocked)
    (hProbe : ∀ k, holder ≠ .probe k) : Guarded build (w.unlock holder) := by
  have hLock : ∀ other, other ≠ holder → w.flipLock = some other →
      (w.unlock holder).flipLock = some other := by
    intro other hOther hHeld
    show (if w.flipLock = some holder then none else w.flipLock) = some other
    rw [hHeld, if_neg (fun hEq => hOther (Option.some.inj hEq))]
  refine ⟨h.pinned, h.child, ?_, ?_, ?_, ?_, h.committed, h.admitted⟩
  · intro i staged hFlip
    refine hLock _ ?_ (h.flipLocked i staged hFlip)
    rintro rfl
    have hIdle := hStimd i rfl
    rw [show w.flips i = _ from hFlip] at hIdle
    cases hIdle
  · intro i staged hFlip
    refine hLock _ ?_ (h.running i staged hFlip)
    rintro rfl
    have hIdle := hStimd i rfl
    rw [show w.flips i = _ from hFlip] at hIdle
    cases hIdle
  · intro j promoter hSome hStage
    refine hLock _ ?_ (h.promoter j promoter hSome hStage)
    rintro rfl
    exact hPromoter j promoter rfl hSome hStage
  · intro k entry hAdmit hPhase
    exact hLock _ (hProbe k).symm (h.probed k entry hAdmit hPhase)

/-- A stimd without a child lets go of its locks. -/
theorem Guarded.finish (h : Guarded build w) (hNone : w.children i = none) :
    Guarded build ((w.setFlip i .idle).unlock (.stimd i)) := by
  have hIdle : Guarded build (w.setFlip i .idle) := h.setFlip hNone fun _ => ⟨nofun, nofun⟩
  refine hIdle.unlock ?_ ?_ ?_
  · rintro _ ⟨⟩
    exact Function.update_self ..
  · intro j promoter hEq
    cases hEq
  · intro k hEq
    cases hEq

/-- No child without its stimd's flip. -/
theorem Guarded.no_child (h : Guarded build w) (hFlip : ∀ staged, w.flips i ≠ .running staged) :
    w.children i = none := by
  cases hSome : w.children i with
  | none => rfl
  | some child =>
      obtain ⟨staged, hRunning⟩ := h.child i child hSome
      exact absurd hRunning (hFlip staged)

/-- With every claim drained, a stimd that holds both locks starts its flip. -/
theorem Guarded.startFlip {staged target : String} (h : Guarded build w)
    (hFlip : w.flips i = .flipLocked staged) (hDrained : w.allDrained = true) :
    Guarded build ({ w with children := Function.update w.children i (some ⟨target, false⟩) }.setFlip
      i (.running staged)) := by
  have hLock := h.flipLocked i staged hFlip
  refine ⟨h.pinned, ?_, ?_, ?_, h.promoter, h.probed, ?_, h.admitted⟩
  · intro i' child hChild
    simp only [SwitchWorld.setFlip, Function.update_apply] at hChild ⊢
    split
    · exact ⟨staged, rfl⟩
    · rename_i hOther
      rw [if_neg hOther] at hChild
      exact h.child i' child hChild
  · intro i' staged' hFlip'
    simp only [SwitchWorld.setFlip, Function.update_apply] at hFlip'
    split at hFlip'
    · cases hFlip'
    · exact h.flipLocked i' staged' hFlip'
  · intro i' staged' hFlip'
    simp only [SwitchWorld.setFlip, Function.update_apply] at hFlip'
    split at hFlip'
    · rename_i hEq
      rw [hEq]
      exact hLock
    · exact h.running i' staged' hFlip'
  · intro _ k entry hAdmit hLive
    rw [h.no_live hDrained hAdmit] at hLive
    cases hLive

/-- With every claim drained, a promotion takes the flip lock. -/
theorem Guarded.takeFlipLock {j : Nat} {promoter : Promoter} (h : Guarded build w)
    (hDrained : w.allDrained = true) (hFree : w.flipLock = none) :
    Guarded build ({ w with flipLock := some (.promoter j) }.setPromoter j
      { promoter with stage := .flipLocked }) := by
  have hHeld : ∀ holder, w.flipLock ≠ some holder := by
    intro holder
    rw [hFree]
    nofun
  refine ⟨h.pinned, h.child, ?_, ?_, ?_, ?_, ?_, h.admitted⟩
  · exact fun i staged hFlip => absurd (h.flipLocked i staged hFlip) (hHeld _)
  · exact fun i staged hFlip => absurd (h.running i staged hFlip) (hHeld _)
  · intro j' promoter' hSome hStage
    simp only [SwitchWorld.setPromoter, Function.update_apply] at hSome ⊢
    split at hSome
    · rename_i hEq
      rw [hEq]
    · exact absurd (h.promoter j' promoter' hSome hStage) (hHeld _)
  · exact fun k entry hAdmit hPhase => absurd (h.probed k entry hAdmit hPhase) (hHeld _)
  · intro _ k entry hAdmit hLive
    rw [h.no_live hDrained hAdmit] at hLive
    cases hLive

theorem guarded_step {a : SwitchAction} (h : Guarded build w) (hCareful : a.Careful w)
    (hStep : switchStep build w a = some w') : Guarded build w' := by
  cases a with
  | start i =>
      simp only [switchStep] at hStep
      split at hStep
      · cases hStep
      · rename_i hNew
        cases hStep
        refine h.of_admits rfl rfl rfl rfl rfl ?_
        intro k entry hAdmit
        refine ⟨entry, hAdmit, rfl, fun hLive => ⟨hLive, ?_⟩⟩
        have hPinned := h.pinned k entry hAdmit hLive
        show (w.claims.set i true).get entry.stimd = some false
        have hOther : entry.stimd ≠ i := by
          intro hEq
          exact hNew (.inl (by rw [← hEq, hPinned]; rfl))
        rw [OrderedMap.get_set_of_ne hOther]
        exact hPinned
  | record i pinned =>
      cases hStep
      cases pinned with
      | true => exact h.record
      | false =>
          have hOthers : ∀ i', i' ≠ i → (w.record i true).claims.get i' = w.claims.get i' := by
            intro i' hOther
            rw [get_record, if_neg (fun hBoth => hOther hBoth.1)]
          have hSame : (w.record i true).void i =
              { w.void i with claims := (w.record i true).claims } := by
            unfold SwitchWorld.record
            split <;> rfl
          rw [if_neg Bool.false_ne_true, hSame]
          exact h.void hOthers
  | release i =>
      cases hStep
      exact h.void fun i' hOther => OrderedMap.get_delete_of_ne hOther
  | die i =>
      cases hStep
      have hVoid : Guarded build { w.void i with claims := w.claims.delete i } :=
        h.void fun i' hOther => OrderedMap.get_delete_of_ne hOther
      have hNone : ({ w.void i with claims := w.claims.delete i }).children i = none := hCareful
      exact hVoid.finish hNone
  | admitOp k i =>
      simp only [switchStep] at hStep
      split at hStep
      · cases hStep
      · cases hStep
        have hRecorded := h.record (i := i)
        have hGet := get_record (w := w) i i false
        generalize w.record i false = recorded at hRecorded hGet
        refine hRecorded.setAdmit (by simp) ?_ (fun _ _ => rfl) (by simp)
        intro hLive
        rw [hGet, if_pos ⟨rfl, hLive⟩]
  | probe k =>
      obtain ⟨entry, hAdmit, hStep⟩ := Option.bind_eq_some_iff.mp hStep
      split at hStep <;> cases hStep
      rename_i hReady
      have hNot := h.not_committed (by simp [hReady.2])
      obtain ⟨hPinned, hChild, hFlipLocked, hRunning, hPromoter, hProbed, hCommitted, hAdmitted⟩ := h
      simp only [Committed] at hCommitted
      constructor <;> simp only [Committed, SwitchWorld.setAdmit, Function.update_apply] <;> grind
  | unprobe k =>
      obtain ⟨entry, hAdmit, hStep⟩ := Option.bind_eq_some_iff.mp hStep
      split at hStep <;> cases hStep
      obtain ⟨hPinned, hChild, hFlipLocked, hRunning, hPromoter, hProbed, hCommitted, hAdmitted⟩ := h
      simp only [Committed] at hCommitted
      constructor <;> simp only [Committed, SwitchWorld.setAdmit, SwitchWorld.unlock, Function.update_apply] <;> grind
  | deadline k =>
      obtain ⟨entry, hAdmit, hStep⟩ := Option.bind_eq_some_iff.mp hStep
      split at hStep <;> cases hStep
      have hNot := h.not_committed hCareful
      refine h.setAdmit (by simp) (h.pinned k entry hAdmit) (fun hNow => absurd hNow hNot) (by simp)
  | answer k =>
      obtain ⟨entry, hAdmit, hStep⟩ := Option.bind_eq_some_iff.mp hStep
      split at hStep <;> cases hStep
      rename_i hPhase
      refine h.setAdmit (by simp) (h.pinned k entry hAdmit) ?_ ?_
      · intro hNow hLive
        have hProbing := h.committed hNow k entry hAdmit hLive
        rw [hPhase] at hProbing
        cases hProbing
      · intro _ hReturned
        by_contra hMoved
        rw [if_neg hMoved] at hReturned
        cases hReturned
  | look i =>
      simp only [switchStep] at hStep
      split at hStep
      · rename_i hIdle _
        split at hStep <;> cases hStep
        exact h.setFlip (h.no_child (by simp [hIdle])) fun _ => ⟨(by simp), (by simp)⟩
      · cases hStep
  | lock i =>
      simp only [switchStep] at hStep
      split at hStep <;> cases hStep
      rename_i staged hWanting _
      exact (h.records w.staged _).setFlip (h.no_child (by simp [hWanting])) fun _ =>
        ⟨(by simp), (by simp)⟩
  | flipLock i =>
      simp only [switchStep] at hStep
      split at hStep <;> cases hStep
      obtain ⟨hPinned, hChild, hFlipLocked, hRunning, hPromoter, hProbed, hCommitted, hAdmitted⟩ := h
      simp only [Committed] at hCommitted
      constructor <;> simp only [Committed, SwitchWorld.setFlip, Function.update_apply] <;> grind
  | recheck i =>
      simp only [switchStep] at hStep
      split at hStep
      · rename_i staged hFlip
        split at hStep <;> cases hStep
        rename_i hReady
        exact h.startFlip hFlip hReady.1
      · cases hStep
  | childReads i =>
      obtain ⟨child, hSome, hStep⟩ := Option.bind_eq_some_iff.mp hStep
      dsimp only at hStep
      split at hStep <;> cases hStep
      exact h.setChild fun _ => h.child i child hSome
  | childWrites i =>
      obtain ⟨child, hSome, hStep⟩ := Option.bind_eq_some_iff.mp hStep
      split at hStep <;> cases hStep
      obtain ⟨staged, hFlip⟩ := h.child i child hSome
      have hMoved := h.move (.inl ⟨i, staged, hFlip⟩) child.target
      exact (hMoved.records none w.promotionLock).setChild (by simp)
  | childEnds i =>
      cases hStep
      exact h.setChild (by simp)
  | finish i =>
      simp only [switchStep] at hStep
      split at hStep <;> cases hStep
      rename_i hNone
      exact h.finish (Option.not_isSome_iff_eq_none.mp hNone)
  | promote j target =>
      simp only [switchStep] at hStep
      split at hStep <;> cases hStep
      exact (h.records w.staged _).setPromoter (by simp)
  | readClaims j others =>
      obtain ⟨promoter, hSome, hStep⟩ := Option.bind_eq_some_iff.mp hStep
      split at hStep
      · split at hStep <;> cases hStep
        · exact (h.records _ w.promotionLock).setPromoter (by simp)
        · exact h.setPromoter (by simp)
      · cases hStep
  | takeFlipLock j =>
      obtain ⟨promoter, hSome, hStep⟩ := Option.bind_eq_some_iff.mp hStep
      split at hStep <;> cases hStep
      rename_i hReady
      exact h.takeFlipLock hCareful hReady.2
  | flipPointer j =>
      obtain ⟨promoter, hSome, hStep⟩ := Option.bind_eq_some_iff.mp hStep
      split at hStep <;> cases hStep
      rename_i hStage
      have hMoved := h.move (.inr ⟨j, promoter, hSome, hStage⟩) promoter.build
      exact (hMoved.records none w.promotionLock).setPromoter (by simp)
  | leave j =>
      obtain ⟨promoter, hSome, hStep⟩ := Option.bind_eq_some_iff.mp hStep
      cases hStep
      have hDone : Guarded build (w.setPromoter j { promoter with stage := .done }) :=
        h.setPromoter (by simp)
      have hUnlocked : Guarded build
          ((w.setPromoter j { promoter with stage := .done }).unlock (.promoter j)) := by
        refine hDone.unlock (by simp) ?_ (by simp)
        rintro _ promoter' ⟨⟩ hSome'
        simp only [SwitchWorld.setPromoter, Function.update_self, Option.some.injEq] at hSome'
        rw [← hSome']
        simp
      exact hUnlocked
  | orphan j =>
      simp only [switchStep] at hStep
      split at hStep <;> cases hStep
      exact h.records w.staged none

/-- An admitted operation is never cut over, in every run of careful steps. -/
theorem admitted_keeps_engine {actions : List SwitchAction}
    (hRun : Machine.run (switchStep build) (.initial build) actions = some w)
    (hCareful : ∀ before a after u, actions = before ++ a :: after →
      Machine.run (switchStep build) (.initial build) before = some u → a.Careful u) :
    ∀ k entry, w.admits k = some entry → entry.live = true → entry.phase = .returned none →
      w.current = build := by
  have hGuarded : Guarded build w :=
    Machine.invariant_run_of (fun _ _ _ h hCond hStep => guarded_step h hCond hStep)
      (guarded_initial build) hRun hCareful
  exact hGuarded.admitted

/-! ## Runs -/

/-- An operation is admitted with the flip lock free. -/
def admits (k i : Nat) : List SwitchAction := [.admitOp k i, .probe k, .unprobe k, .answer k]

/-- A promotion stages a build, and the stimd flips once its operation is over. -/
def drains : List SwitchAction :=
  [.start 0] ++ admits 0 0 ++ [.promote 0 "b", .readClaims 0 false, .leave 0]

theorem admitted_keeps_engine_drains :
    ∃ w, Machine.run (switchStep "a") (.initial "a") drains = some w ∧
      w.admits 0 = some ⟨0, true, .returned none⟩ ∧ w.staged = some "b" ∧ w.current = "a" := by
  have hSome : (Machine.run (switchStep "a") (.initial "a") drains).map
      (fun w => (w.admits 0, w.staged)) = some (some ⟨0, true, .returned none⟩, some "b") := by
    decide +kernel
  obtain ⟨w, hRun, hEnd⟩ := Option.map_eq_some_iff.mp hSome
  obtain ⟨hAdmit, hStaged⟩ := Prod.mk.inj hEnd
  refine ⟨w, hRun, hAdmit, hStaged, ?_⟩
  refine admitted_keeps_engine hRun ?_ 0 _ hAdmit rfl rfl
  intro before a after u hSplit _
  have hMem : a ∈ drains := by
    rw [hSplit]
    exact List.mem_append_right _ (List.mem_cons_self ..)
  simp only [drains, admits, List.cons_append, List.nil_append, List.mem_cons, List.not_mem_nil,
    or_false] at hMem
  rcases hMem with rfl | rfl | rfl | rfl | rfl | rfl | rfl | rfl <;> trivial

/-- A stimd sees every claim drained under both locks and starts the flip of a staged build. -/
def startsFlip (i : Nat) : List SwitchAction := [.look i, .lock i, .flipLock i, .recheck i]

/-- The pointer moves off the build of an admitted operation: the promotion had read the
claims before the stimd took one; the `admit` had given up waiting for the flip; and the
stimd that flipped had died, which freed its lock. -/
theorem not_admitted_keeps_engine :
    (∃ w, Machine.run (switchStep "a") (.initial "a")
        ([.promote 0 "b", .readClaims 0 false, .start 0] ++ admits 0 0 ++
          [.takeFlipLock 0, .flipPointer 0]) = some w ∧
      w.admits 0 = some ⟨0, true, .returned none⟩ ∧ w.current = "b") ∧
    (∃ w, Machine.run (switchStep "a") (.initial "a")
        ([.start 0, .promote 0 "b", .readClaims 0 false, .leave 0] ++ startsFlip 0 ++
          [.admitOp 0 0, .deadline 0, .answer 0, .childReads 0, .childWrites 0]) = some w ∧
      w.admits 0 = some ⟨0, true, .returned none⟩ ∧ w.current = "b") ∧
    ∃ w, Machine.run (switchStep "a") (.initial "a")
        ([.start 0, .start 1, .promote 0 "b", .readClaims 0 false, .leave 0] ++ startsFlip 1 ++
          [.die 1] ++ admits 0 0 ++ [.childReads 1, .childWrites 1]) = some w ∧
      w.admits 0 = some ⟨0, true, .returned none⟩ ∧ w.current = "b" := by
  have hRuns : ∀ actions : List SwitchAction,
      (Machine.run (switchStep "a") (.initial "a") actions).map (fun w =>
        (w.admits 0, w.current)) = some (some ⟨0, true, .returned none⟩, "b") →
      ∃ w, Machine.run (switchStep "a") (.initial "a") actions = some w ∧
        w.admits 0 = some ⟨0, true, .returned none⟩ ∧ w.current = "b" := by
    intro actions hSome
    obtain ⟨w, hRun, hEnd⟩ := Option.map_eq_some_iff.mp hSome
    exact ⟨w, hRun, (Prod.mk.inj hEnd).1, (Prod.mk.inj hEnd).2⟩
  refine ⟨hRuns _ ?_, hRuns _ ?_, hRuns _ ?_⟩
  · decide +kernel
  · decide +kernel
  · decide +kernel

end Stim.Cli
