import Stim.Core.OwnershipClaim.Calls

/-!
# Mutual exclusion

The claim store as a whole: in every run in which no process dies while it clears
another live process's staging directory, an exclusive claim excludes every other
claim.  Without that condition it does not: a clearing process that dies between
emptying a staging directory and removing it lets the publisher rename an empty
directory into place.
-/

namespace Stim.OwnershipClaim

open Interleaving FileTree

variable {Details : Type} [DecidableEq Details] {rounds : Nat} {p q : ClaimOwner}
  {w w' : World Details}

/-! ## Verification of the system -/

/-- A process that runs no call is not clearing a set. -/
def Idle (p : ClaimOwner) (w : World Details) : Prop := (w.memory p).clearing = false

omit [DecidableEq Details] in
theorem ready_of_idle (hInv : Inv w) (hAlive : w.life p = .alive) (hIdle : Idle p w) :
    Ready w p := by
  refine ⟨hAlive, fun X hLast => ?_⟩
  rcases hInv.foreign hAlive hLast with hOwn | hClearing
  · exact hOwn
  · rw [hIdle] at hClearing
    cases hClearing

/-- What a call leaves for its result. -/
def Result (p : ClaimOwner) : (c : Call Details) → c.Ret → World Details → Prop
  | .tryAcquireClaim .., r, v => Answers p r v
  | .settleClaim _, r, v => Answers p r v
  | .inspectClaimSet, r, v => ∀ state, r = .ok state → AllBuried v state.reaped
  | .readClaimSet, survey, v => AllBuried v survey.dead
  | .markClaimChildPending handle, r, v => r = .ok () → (v.memory p).Has handle ∧
      v.look (.child handle.mode handle.claimId) = some (.file (.child none))
  | _, _, _ => True

def Call.isClearing : Call Details → Prop
  | .clearFreeClaimSet .. => True
  | _ => False

/-- What holds when a call returns. -/
def Post (p : ClaimOwner) (c : Call Details) (r : c.Ret) (v : World Details) : Prop :=
  Ready v p ∧ (c.isClearing ∨ Idle p v) ∧ Result p c r v

/-- No process dies between taking the claim out of a live publisher's staging directory
and its next request, while that publisher is about to rename the directory. -/
def DiesCleanly (s : (system Details rounds).State) :
    (system Details rounds).Choice → Prop
  | .crash p => ∀ X q c, s.world.life q = .alive →
      s.world.last q = some (.writeFile (stagedClaim X) c) →
      s.world.last p ≠ some (.unlink (stagedClaim X))
  | _ => True

variable {h : ClaimHandle Details} {M : Memory Details}

theorem has_of_holds (hHolds : M.holds h = true) : M.Has h := by
  simpa [Memory.holds, Memory.Has] using hHolds

omit [DecidableEq Details] in
theorem guar_refl (hInv : Inv w) : (contract Details).Guar p w w :=
  ⟨hInv, fun q _ => (contract Details).rely_refl q w⟩

omit [DecidableEq Details] in
theorem recalls_drop {granted : List ClaimId} (X : ClaimId) (h : Recalls p w M granted) :
    Recalls p w (M.drop X) granted :=
  { h with
    handle := fun hHas => h.handle (hHas.imp (fun hMem => (List.mem_filter.mp hMem).1)
      fun hMem => (List.mem_filter.mp hMem).1)
    acquired := fun hMem => h.acquired (List.mem_filter.mp hMem).1
    pending := fun hMem => h.pending (List.mem_filter.mp hMem).1 }

omit [DecidableEq Details] in
theorem drop_forgets {X : ClaimId} (hHas : (M.drop X).Has h) : h.claimId ≠ X := by
  rcases hHas with hMem | hMem
  · simpa using (List.mem_filter.mp hMem).2
  · simpa using (List.mem_filter.mp hMem).2

variable {c : Call Details}

/-- A call that keeps its process's memory. -/
theorem post_of_within {Q : c.Ret → World Details → Prop} (hIdle : Idle p w)
    (h : Within (sameMemory Details p) rounds (c.prog rounds) w Q)
    (hQ : ∀ r v, Inv v → v.memory p = w.memory p → Q r v → Result p c r v) :
    Safe (system Details rounds) (contract Details) p (c.prog rounds) (Post p c) w := by
  refine Safe.mono h ?_
  rintro r v hInv ⟨⟨hMemory, -⟩, hReady, hResult⟩
  refine ⟨hReady, Or.inr ?_, hQ r v hInv hMemory hResult⟩
  unfold Idle
  rw [hMemory]
  exact hIdle

theorem post_of_does {Q : c.Ret → World Details → Prop} (hIdle : Idle p w)
    (h : Does rounds p (c.prog rounds) w Q) (hQ : ∀ r v, Inv v → Q r v → Result p c r v) :
    Safe (system Details rounds) (contract Details) p (c.prog rounds) (Post p c) w :=
  post_of_within hIdle h.within fun r v hInv _ hResult => hQ r v hInv hResult.2

theorem invoke_spec (hInv : Inv w) (hIdle : Idle p w) (h : invoke p c w = some w') :
    (contract Details).Guar p w w' ∧
      Safe (system Details rounds) (contract Details) p (c.prog rounds) (Post p c) w' := by
  unfold invoke at h
  split at h
  · rename_i hAlive
    have hReady := ready_of_idle hInv hAlive hIdle
    have hRecalls := hInv.recalls hAlive
    cases c with
    | tryAcquireClaim mode startedAt details =>
        cases h
        exact ⟨guar_refl hInv, post_of_within hIdle (within_tryAcquireClaim hReady)
          fun _ _ _ _ hAnswers => hAnswers.1⟩
    | inspectClaimSet =>
        cases h
        exact ⟨guar_refl hInv, post_of_does hIdle (does_inspectClaimSet hReady)
          fun _ _ _ hState state hr => (hState state hr).2.2⟩
    | readClaimSet =>
        cases h
        exact ⟨guar_refl hInv, post_of_does hIdle (does_readClaimSet hReady)
          fun _ _ _ hSurveyed x hx => (hSurveyed.1.dead x hx).2⟩
    | settleClaim pending =>
        simp only [Option.ite_none_right_eq_some, Option.some.injEq] at h
        obtain ⟨hPending, rfl⟩ := h
        exact ⟨guar_refl hInv, post_of_does hIdle (does_settleClaim hInv hReady
          (hInv.handle hAlive (Or.inr hPending)) (hInv.pending_exclusive hPending))
          fun _ _ _ hAnswers => hAnswers⟩
    | releaseClaim handle =>
        simp only [Option.ite_none_right_eq_some, Option.some.injEq] at h
        obtain ⟨hHolds, rfl⟩ := h
        obtain ⟨hPath, hX, -⟩ := hInv.handle hAlive (has_of_holds hHolds)
        have hRecall := guar_recall hInv hReady (recalls_drop handle.claimId hRecalls)
        have hGuar := hRecall.trans (guar_unmark (X := handle.claimId) hRecall.inv hX)
        refine ⟨hGuar, post_of_within ?_ (within_releaseClaim ?_ hPath ?_)
          fun _ _ _ _ _ => trivial⟩
        · simpa [Idle, Memory.drop] using hIdle
        · exact hReady
        · refine ⟨hX, by simp, fun h hHas => ?_⟩
          simp only [Function.update_self] at hHas
          exact drop_forgets hHas
    | clearFreeClaimSet startedAt details =>
        cases h
        have hGuar := guar_recall (M := { w.memory p with clearing := true }) hInv hReady
          { hRecalls with }
        refine ⟨hGuar, Safe.mono (within_clearFreeClaimSet (w := w.recall p _ _) hReady
          (by simp [World.recall])) ?_⟩
        rintro r v - ⟨-, hReadyv, -⟩
        exact ⟨hReadyv, Or.inl trivial, trivial⟩
    | markClaimChildPending handle =>
        simp only [Option.ite_none_right_eq_some, Option.some.injEq] at h
        obtain ⟨hHolds, rfl⟩ := h
        have hHas := has_of_holds hHolds
        refine ⟨guar_refl hInv, post_of_within hIdle
          (within_writeChild hInv hReady hHas (Or.inl rfl)) ?_⟩
        intro r v _ hMemory hPlaced hr
        exact ⟨hMemory ▸ hHas, hPlaced hr⟩
    | spawn handle child =>
        simp only [Option.ite_none_right_eq_some, Option.some.injEq] at h
        obtain ⟨⟨hHolds, -, hNone⟩, rfl⟩ := h
        exact ⟨guar_refl hInv, post_of_within hIdle
          (within_spawn hInv hReady (has_of_holds hHolds) hNone) fun _ _ _ _ _ => trivial⟩
    | setClaimChild handle record =>
        simp only [Option.ite_none_right_eq_some, Option.some.injEq] at h
        obtain ⟨⟨hHolds, hSpawned⟩, rfl⟩ := h
        exact ⟨guar_refl hInv, post_of_within hIdle (within_writeChild hInv hReady
          (has_of_holds hHolds) (Or.inr hSpawned.symm)) fun _ _ _ _ _ => trivial⟩
    | clearClaimChild handle =>
        simp only [Option.ite_none_right_eq_some, Option.some.injEq] at h
        obtain ⟨hHolds, rfl⟩ := h
        have hHas := has_of_holds hHolds
        have hGuar := guar_unmark (X := handle.claimId) hInv (hInv.handle hAlive hHas).2.1
        refine ⟨hGuar, post_of_within hIdle (within_clearClaimChild hGuar.inv ?_ hHas
          (by simp)) fun _ _ _ _ _ => trivial⟩
        exact hReady
  · cases h

omit [DecidableEq Details] in
/-- Keeping an attempt's handle. -/
theorem recalls_keep (hInv : Inv w) (hAlive : w.life p = .alive) (hOwns : Owns p w h)
    (hFirst : First w h.mode h.claimId) :
    Recalls p w
      { (w.memory p).drop h.claimId with
        acquired := h :: ((w.memory p).drop h.claimId).acquired }
      (h.claimId :: w.granted) := by
  have hDrop := recalls_drop h.claimId (hInv.recalls hAlive)
  exact
  { hDrop with
    handle := by
      rintro h' (hMem | hMem)
      · rcases List.mem_cons.mp hMem with rfl | hMem
        · exact hOwns
        · exact hDrop.handle (Or.inl hMem)
      · exact hDrop.handle (Or.inr hMem)
    acquired := by
      intro h' hMem
      rcases List.mem_cons.mp hMem with rfl | hMem
      · exact List.mem_cons_self ..
      · exact List.mem_cons_of_mem _ (hDrop.acquired hMem)
    grows := fun hX => List.mem_cons_of_mem _ hX
    granted := by
      intro X hX
      rcases List.mem_cons.mp hX with rfl | hX
      · exact Or.inr ⟨h.mode, hFirst⟩
      · exact Or.inl hX }

omit [DecidableEq Details] in
theorem recalls_wait (hInv : Inv w) (hAlive : w.life p = .alive) (hOwns : Owns p w h)
    (hMode : h.mode = .exclusive) :
    Recalls p w
      { (w.memory p).drop h.claimId with
        pending := h :: ((w.memory p).drop h.claimId).pending }
      w.granted := by
  have hDrop := recalls_drop h.claimId (hInv.recalls hAlive)
  exact
  { hDrop with
    handle := by
      rintro h' (hMem | hMem)
      · exact hDrop.handle (Or.inl hMem)
      · rcases List.mem_cons.mp hMem with rfl | hMem
        · exact hOwns
        · exact hDrop.handle (Or.inr hMem)
    pending := by
      intro h' hMem
      rcases List.mem_cons.mp hMem with rfl | hMem
      · exact hMode
      · exact hDrop.pending hMem }

omit [DecidableEq Details] in
theorem keepAttempt_spec {r : Except ClaimError (ClaimAttempt Details)} (hInv : Inv w)
    (hReady : Ready w p) (hIdle : Idle p w) (hAnswers : Answers p r w) :
    (contract Details).Guar p w (keepAttempt p w r) ∧ Idle p (keepAttempt p w r) := by
  match r, hAnswers with
  | .error _, _ => exact ⟨guar_refl hInv, hIdle⟩
  | .ok (.held ..), _ => exact ⟨guar_refl hInv, hIdle⟩
  | .ok (.acquired h reaped), hAnswers =>
      obtain ⟨hOwns, hFirst⟩ := hAnswers.acquired h reaped rfl
      refine ⟨guar_recall hInv hReady (recalls_keep hInv hReady.1 hOwns hFirst), ?_⟩
      simpa [Idle, keepAttempt, Memory.drop] using hIdle
  | .ok (.waitingFor shared h reaped), hAnswers =>
      obtain ⟨hOwns, hMode⟩ := hAnswers.waiting shared h reaped rfl
      refine ⟨guar_recall hInv hReady (recalls_wait hInv hReady.1 hOwns hMode), ?_⟩
      simpa [Idle, keepAttempt, Memory.drop] using hIdle

variable {r : c.Ret}

omit [DecidableEq Details] in
/-- What a call reports as dead is. -/
theorem allBuried_buries (h : Result p c r w) : AllBuried w (buries c r) := by
  cases c with
  | tryAcquireClaim mode startedAt details =>
      cases r with
      | error e => exact nofun
      | ok attempt => exact h.reaped attempt rfl
  | settleClaim pending =>
      cases r with
      | error e => exact nofun
      | ok attempt => exact h.reaped attempt rfl
  | inspectClaimSet =>
      cases r with
      | error e => exact nofun
      | ok state => exact h state rfl
  | readClaimSet => exact h
  | _ => exact nofun

omit [DecidableEq Details] in
theorem guar_bury {dead : List (ClaimHolder Details)} (hInv : Inv w) (hReady : Ready w p)
    (hDead : AllBuried w dead) : (contract Details).Guar p w (w.bury p dead) := by
  have hRecalls := hInv.recalls hReady.1
  refine guar_recall (M := { w.memory p with buried := dead ++ (w.memory p).buried }) hInv
    hReady { hRecalls with buried := ?_ }
  intro h hMem
  exact (List.mem_append.mp hMem).elim (hDead h) hRecalls.buried

omit [DecidableEq Details] in
/-- Keeping what a call reported as dead changes nothing else. -/
theorem post_bury (dead : List (ClaimHolder Details)) (hPost : Post p c r w) :
    Post p c r (w.bury p dead) := by
  obtain ⟨hReady, hIdle, hResult⟩ := hPost
  refine ⟨hReady, hIdle.imp_right fun h => by simpa [Idle, World.bury] using h, ?_⟩
  cases c with
  | tryAcquireClaim mode startedAt details =>
      exact ⟨hResult.acquired, hResult.waiting, hResult.reaped⟩
  | settleClaim pending => exact ⟨hResult.acquired, hResult.waiting, hResult.reaped⟩
  | markClaimChildPending handle =>
      intro hr
      obtain ⟨hHas, hChild⟩ := hResult hr
      refine ⟨?_, hChild⟩
      simpa [World.bury, Memory.Has] using hHas
  | _ => exact hResult

omit [DecidableEq Details] in
theorem use_spec (hInv : Inv w) (hPost : Post p c r w) :
    (contract Details).Guar p w (use p w c r) ∧ Idle p (use p w c r) := by
  obtain ⟨hReady, hIdle, hResult⟩ := hPost
  cases c with
  | tryAcquireClaim mode startedAt details =>
      exact keepAttempt_spec hInv hReady (hIdle.resolve_left id) hResult
  | settleClaim pending => exact keepAttempt_spec hInv hReady (hIdle.resolve_left id) hResult
  | clearFreeClaimSet startedAt details =>
      exact ⟨guar_recall (M := { w.memory p with clearing := false }) hInv hReady
        { hInv.recalls hReady.1 with }, by simp [Idle, use]⟩
  | markClaimChildPending handle =>
      have hIdle := hIdle.resolve_left id
      match r, hResult with
      | .error e, _ => exact ⟨guar_refl hInv, hIdle⟩
      | .ok (), hResult =>
          obtain ⟨hHas, hChild⟩ := hResult rfl
          obtain ⟨-, hX, hFile⟩ := hInv.handle hReady.1 hHas
          refine ⟨guar_mark hInv hX hFile hChild ?_, hIdle⟩
          intro hShared
          rcases hHas with hMem | hMem
          · exact hInv.acquired_granted hMem
          · rw [hInv.pending_exclusive hMem] at hShared
            cases hShared
  | releaseClaim handle => exact ⟨guar_refl hInv, hIdle.resolve_left id⟩
  | inspectClaimSet => exact ⟨guar_refl hInv, hIdle.resolve_left id⟩
  | readClaimSet => exact ⟨guar_refl hInv, hIdle.resolve_left id⟩
  | spawn handle child => exact ⟨guar_refl hInv, hIdle.resolve_left id⟩
  | setClaimChild handle record => exact ⟨guar_refl hInv, hIdle.resolve_left id⟩
  | clearClaimChild handle => exact ⟨guar_refl hInv, hIdle.resolve_left id⟩

omit [DecidableEq Details] in
theorem finish_spec (hInv : Inv w) (hPost : Post p c r w) (h : finish p c r w = some w') :
    (contract Details).Guar p w w' ∧ Idle p w' := by
  unfold finish at h
  rw [if_pos hPost.1.1] at h
  cases h
  have hGuar := guar_bury hInv hPost.1 (allBuried_buries hPost.2.2)
  obtain ⟨hUse, hIdle⟩ := use_spec hGuar.inv (post_bury (buries c r) hPost)
  exact ⟨hGuar.trans hUse, hIdle⟩

/-- The system keeps its contract in every run in which processes die cleanly. -/
theorem verified : Verified (system Details rounds) (contract Details) DiesCleanly Idle
    Post where
  idle := by
    intro p w w' _ _ hRely hIdle
    unfold Idle
    rw [hRely.1]
    exact hIdle
  invoke := fun hInv hIdle _ h => invoke_spec hInv hIdle h
  finish := fun hInv hPost h => finish_spec hInv hPost h
  crash := by
    intro s p w' hInv hOk h
    replace h : crash p s.world = some w' := h
    unfold crash at h
    simp only [Option.ite_none_right_eq_some, Option.some.injEq] at h
    obtain ⟨hAlive, rfl⟩ := h
    exact ⟨guar_die hInv hAlive hOk, by simp [Idle, Memory.empty]⟩
  env := fun hInv h => groupEnds_spec hInv h

omit [DecidableEq Details] in
theorem inv_init (life : ClaimOwner → Life) : Inv (World.init life : World Details) where
  unborn := fun _ => ⟨rfl, rfl, nofun⟩
  parented := nofun
  issued := nofun
  nodup := List.nodup_nil
  claim_file := nofun
  child_file := nofun
  child_claim := fun _ => rfl
  one_mode := fun h => absurd rfl h
  one_exclusive := fun h => absurd rfl h
  staging_issued := fun h => absurd rfl h
  below_staging := nofun
  stagingChild_file := nofun
  armed := nofun
  foreign := nofun
  handle := by
    rintro p h - (hMem | hMem) <;> cases hMem
  acquired_granted := nofun
  pending_exclusive := nofun
  granted_published := nofun
  order := nofun
  marked := nofun
  marked_published := nofun
  marked_granted := nofun
  spawned_born := nofun
  spawned_leader := nofun
  buried := nofun

/-- Every state of every run in which processes die cleanly satisfies the invariant. -/
theorem inv_of_reach {life : ClaimOwner → Life} {s : (system Details rounds).State}
    (h : (system Details rounds).Reach DiesCleanly
      ((system Details rounds).start (World.init life)) s) : Inv s.world :=
  (verified.sound (inv_init life) (fun _ => rfl) h).inv

/-! ## Exclusion -/

/-- An acquired exclusive claim of a live process is the only acquired claim of any live
process. -/
def MutualExclusion (w : World Details) : Prop :=
  ∀ p q h, w.life p = .alive → h ∈ (w.memory p).acquired → h.mode = .exclusive →
    q ≠ p → w.life q = .alive → (w.memory q).acquired = []

omit [DecidableEq Details] in
theorem held_of_acquired (hInv : Inv w) (hAlive : w.life p = .alive)
    (hMem : h ∈ (w.memory p).acquired) : Held w h.mode h.claimId := by
  obtain ⟨-, hX, hFile⟩ := hInv.handle hAlive (Or.inl hMem)
  exact ⟨hFile, Or.inl ⟨p, hX, hAlive⟩⟩

omit [DecidableEq Details] in
theorem mutualExclusion_of_inv (hInv : Inv w) : MutualExclusion w := by
  intro p q h hp hMem hMode hNe hq
  rw [List.eq_nil_iff_forall_not_mem]
  intro h' hMem'
  have hHeld := held_of_acquired hInv hp hMem
  have hHeld' := held_of_acquired hInv hq hMem'
  rw [hMode] at hHeld
  cases hMode' : h'.mode with
  | exclusive =>
      rw [hMode'] at hHeld'
      have hSame : h.claimId = h'.claimId := hInv.one_exclusive hHeld.1 hHeld'.1
      have hX := (hInv.handle hp (Or.inl hMem)).2.1
      have hX' := (hInv.handle hq (Or.inl hMem')).2.1
      rw [← hSame, hX] at hX'
      exact hNe (Option.some.inj hX').symm
  | shared =>
      rw [hMode'] at hHeld'
      -- each of the two claims would have been published before the other
      have hBefore := hInv.order (hInv.acquired_granted hMem) hHeld hHeld' (by simp)
      have hAfter := hInv.order (hInv.acquired_granted hMem') hHeld' hHeld (by simp)
      unfold Precedes at hBefore hAfter
      omega

theorem mutualExclusion_of_reach {life : ClaimOwner → Life} (s : (system Details rounds).State)
    (h : (system Details rounds).Reach DiesCleanly
      ((system Details rounds).start (World.init life)) s) : MutualExclusion s.world :=
  mutualExclusion_of_inv (inv_of_reach h)

section Runs

/-- A publisher, a clearing process and a late-comer. -/
def publisher : ClaimOwner := ⟨10, 1⟩
def clearer : ClaimOwner := ⟨11, 2⟩
def latecomer : ClaimOwner := ⟨12, 3⟩

def threeAlive (p : ClaimOwner) : Life :=
  if p = publisher ∨ p = clearer ∨ p = latecomer then .alive else .unborn

/-- `n` requests of a process; an id it draws is `id`. -/
def requests (p : ClaimOwner) (id : ClaimId) (n : Nat) : List (system Unit 2).Choice :=
  List.replicate n (.act p { id := id })

/-- Whether a live process holds an acquired exclusive claim. -/
def holdsExclusive (p : ClaimOwner) (w : World Unit) : Bool :=
  decide (w.life p = .alive) && (w.memory p).acquired.any fun h => decide (h.mode = .exclusive)

theorem exists_of_holdsExclusive {w : World Unit} (h : holdsExclusive p w = true) :
    w.life p = .alive ∧ ∃ x ∈ (w.memory p).acquired, x.mode = .exclusive := by
  simpa [holdsExclusive] using h

/-- The publisher acquires an exclusive claim while nobody else acts. -/
def quietRun : List (system Unit 2).Choice :=
  [.invoke publisher (.tryAcquireClaim .exclusive "" ())] ++ requests publisher 100 19 ++
    [.finish publisher]

/-- A run without crashes is one in which processes die cleanly. -/
theorem mutualExclusion_quietRun :
    ∃ s, (system Unit 2).Reach DiesCleanly
        ((system Unit 2).start (World.init threeAlive)) s ∧
      holdsExclusive publisher s.world = true ∧ MutualExclusion s.world := by
  have hRun : (((system Unit 2).run quietRun
      ((system Unit 2).start (World.init threeAlive))).any
        fun s => holdsExclusive publisher s.world) = true := by
    decide +kernel
  obtain ⟨s, hRun, hHolds⟩ := (Option.any_eq_true ..).mp hRun
  have hOk : ∀ choice ∈ quietRun, ∀ s, DiesCleanly s choice := by
    intro choice hMem s
    cases choice with
    | crash p => simp [quietRun, requests] at hMem
    | _ => trivial
  have hReach := System.Reach.of_run quietRun .start hOk hRun
  exact ⟨s, hReach, hHolds, mutualExclusion_of_reach s hReach⟩

/-- The clearing process takes the claim out of the publisher's staging directory and dies;
an inspection removes the clearing process's own claim, the publisher's rename puts an empty
directory in place, and the late-comer's rename replaces it. -/
def clearingRun : List (system Unit 2).Choice :=
  [.invoke publisher (.tryAcquireClaim .exclusive "" ())] ++ requests publisher 100 10 ++
    [.invoke clearer (.clearFreeClaimSet "" ())] ++ requests clearer 200 26 ++
    [.crash clearer] ++
    [.invoke latecomer .inspectClaimSet] ++ requests latecomer 300 14 ++ [.finish latecomer] ++
    requests publisher 100 7 ++ [.finish publisher] ++
    [.invoke latecomer (.tryAcquireClaim .exclusive "" ())] ++ requests latecomer 300 20 ++
    [.finish latecomer]

theorem not_mutualExclusion_clearingRun :
    ¬ ∀ s, (system Unit 2).Reach (fun _ _ => True)
        ((system Unit 2).start (World.init threeAlive)) s → MutualExclusion s.world := by
  have hRun : (((system Unit 2).run clearingRun
      ((system Unit 2).start (World.init threeAlive))).any fun s =>
        holdsExclusive publisher s.world && holdsExclusive latecomer s.world) = true := by
    decide +kernel
  obtain ⟨s, hRun, hBoth⟩ := (Option.any_eq_true ..).mp hRun
  obtain ⟨hPublisher, hLatecomer⟩ := (Bool.and_eq_true ..).mp hBoth
  obtain ⟨hAlive, h, hMem, hMode⟩ := exists_of_holdsExclusive hPublisher
  obtain ⟨hAlive', h', hMem', -⟩ := exists_of_holdsExclusive hLatecomer
  intro hAll
  have hReach := System.Reach.of_run clearingRun .start (fun _ _ _ => trivial) hRun
  have hNil := hAll s hReach publisher latecomer h hAlive hMem hMode (by decide) hAlive'
  rw [hNil] at hMem'
  cases hMem'

end Runs

end Stim.OwnershipClaim
