import Stim.Core.OwnershipClaim.Exclusion

/-!
# Handing a claim to a child

An owner that marks its claim, spawns a child as the leader of a process group and
records it may die at any point of that.  From the completed mark until the owner
clears the child or releases the claim, the claim stays in place while the owner, the
child or a member of the child's group lives: nobody reports it as dead, removes one of
its files, or acquires another exclusive claim.
-/

namespace Stim.OwnershipClaim

open Interleaving FileTree

variable {Details : Type} {rounds : Nat} {p q : ClaimOwner} {w w' : World Details}
  {X : ClaimId}

/-- The owner of the claim, its child, or a member of the child's process group is alive. -/
def Attended (w : World Details) (X : ClaimId) : Prop :=
  OwnerAlive w X ∨ ∃ c, w.spawned X = some c ∧ (w.life c = .alive ∨ w.group c = .alive)

/-- The claim file and the child file are in place, no call of any process has reported the
claim as dead, and every acquired exclusive claim is this one. -/
def Retained (w : World Details) (X : ClaimId) : Prop :=
  (∃ m o s d r, w.look (.claim m X) = some (.file (.claim X m o s d)) ∧
      w.look (.child m X) = some (.file (.child r))) ∧
    (∀ p, ∀ h ∈ (w.memory p).buried, h.claimId ≠ X) ∧
    ∀ p h, w.life p = .alive → h ∈ (w.memory p).acquired → h.mode = .exclusive →
      h.claimId = X

theorem kept_of_attended (hInv : Inv w) (h : Attended w X) : Kept w X := by
  rcases h with hOwner | ⟨c, hc, hLife | hGroup⟩
  · exact Or.inl hOwner
  · exact Or.inr ⟨c, hc, hInv.spawned_leader hc hLife⟩
  · exact Or.inr ⟨c, hc, hGroup⟩

theorem retained_of_inv (hInv : Inv w) (hMarked : w.marked X = true)
    (hAttended : Attended w X) : Retained w X := by
  have hKept := kept_of_attended hInv hAttended
  obtain ⟨m, r, hFile, hChild, hr⟩ := hInv.marked hMarked hKept
  have hHeld := held_of_marked hKept hFile hChild hr
  obtain ⟨n, hn⟩ := Option.ne_none_iff_exists'.mp hFile
  obtain ⟨-, o, s, d, -, rfl⟩ := hInv.claim_file hn
  refine ⟨⟨m, o, s, d, r, hn, hChild⟩, ?_, ?_⟩
  · rintro p h hMem rfl
    obtain ⟨-, hNot, hSole⟩ := hInv.buried hMem
    rw [hSole m hFile] at hHeld
    exact hNot hHeld
  · intro p h hAlive hMem hMode
    have hOther := held_of_acquired hInv hAlive hMem
    rw [hMode] at hOther
    cases m with
    | exclusive => exact hInv.one_exclusive hOther.1 hFile
    | shared =>
        -- a marked shared claim was acquired, so each would precede the other
        have hBefore := hInv.order (hInv.acquired_granted hMem) hOther hHeld (by simp)
        have hAfter := hInv.order (hInv.marked_granted hMarked hFile) hHeld hOther (by simp)
        unfold Precedes at hBefore hAfter
        omega

/-! ## Runs without clearing -/

/-- No process is inside `clearFreeClaimSet`. -/
def NobodyClears (w : World Details) : Prop := ∀ p, (w.memory p).clearing = false

theorem nobodyClears_update {M : Memory Details} (hw : w'.memory = Function.update w.memory p M)
    (h : NobodyClears w) (hM : M.clearing = false) : NobodyClears w' := by
  intro q
  rw [hw, Function.update_apply]
  split
  · exact hM
  · exact h q

theorem nobodyClears_perform {oracle : Oracle} {o : Op Details} {r : Res Details o}
    (h : NobodyClears w) (hPerform : perform oracle p o w = some (r, w')) : NobodyClears w' := by
  have hTree : ∀ {t r}, some (applyTree w t) = some (r, w') → NobodyClears w' := by
    intro t r hApply
    obtain ⟨t, rfl⟩ := applyTree_setTree hApply
    exact h
  cases o with
  | mkdir path => exact hTree hPerform
  | writeFile path content => exact hTree hPerform
  | unlink path => exact hTree hPerform
  | rmdir path => exact hTree hPerform
  | rename src dst =>
      simp only [perform] at hPerform
      split at hPerform <;> cases hPerform <;> exact h
  | randomUUID =>
      simp only [perform] at hPerform
      split at hPerform <;> cases hPerform
      exact h
  | spawn claimId child =>
      simp only [perform] at hPerform
      split at hPerform <;> cases hPerform
      exact h
  | remember handle => cases hPerform; exact nobodyClears_update rfl h (h p)
  | forget handle => cases hPerform; exact nobodyClears_update rfl h (h p)
  | _ => cases hPerform; exact h

theorem nobodyClears_invoke [DecidableEq Details] {c : Call Details} (h : NobodyClears w) (hc : ¬ c.isClearing)
    (hInvoke : invoke p c w = some w') : NobodyClears w' := by
  unfold invoke at hInvoke
  split at hInvoke
  · cases c with
    | clearFreeClaimSet startedAt details => exact absurd trivial hc
    | releaseClaim handle =>
        simp only [Option.ite_none_right_eq_some, Option.some.injEq] at hInvoke
        obtain ⟨-, rfl⟩ := hInvoke
        exact nobodyClears_update rfl h (h p)
    | tryAcquireClaim mode startedAt details => cases hInvoke; exact h
    | inspectClaimSet => cases hInvoke; exact h
    | readClaimSet => cases hInvoke; exact h
    | _ =>
        simp only [Option.ite_none_right_eq_some, Option.some.injEq] at hInvoke
        obtain ⟨-, rfl⟩ := hInvoke
        exact h
  · cases hInvoke

theorem nobodyClears_use {c : Call Details} {r : c.Ret} (h : NobodyClears w) :
    NobodyClears (use p w c r) := by
  have hKeep : ∀ r, NobodyClears (keepAttempt p w r) := by
    intro r
    match r with
    | .ok (.acquired handle _) => exact nobodyClears_update rfl h (h p)
    | .ok (.waitingFor _ pending _) => exact nobodyClears_update rfl h (h p)
    | .ok (.held ..) => exact h
    | .error _ => exact h
  cases c with
  | tryAcquireClaim mode startedAt details => exact hKeep r
  | settleClaim pending => exact hKeep r
  | clearFreeClaimSet startedAt details =>
      exact nobodyClears_update rfl h rfl
  | markClaimChildPending handle =>
      match r with
      | .ok () => exact h
      | .error e => exact h
  | _ => exact h

section System

variable [DecidableEq Details] {s s' : (system Details rounds).State}

/-- No process calls `clearFreeClaimSet`. -/
def NoClearing (_ : (system Details rounds).State) : (system Details rounds).Choice → Prop
  | .invoke _ c => ¬ c.isClearing
  | _ => True

theorem nobodyClears_step {choice : (system Details rounds).Choice}
    (h : NobodyClears s.world) (hOk : NoClearing s choice)
    (hStep : (system Details rounds).step choice s = some s') : NobodyClears s'.world := by
  refine System.step_world ?_ ?_ ?_ ?_ ?_ hStep
  · rintro p c w' rfl hInvoke
    exact nobodyClears_invoke h hOk hInvoke
  · intro oracle p o r w' hExec
    obtain ⟨-, u, hPerform, rfl⟩ := exec_eq_some hExec
    have hPerformed : NobodyClears u := nobodyClears_perform h hPerform
    exact hPerformed
  · intro p c a w' hFinish
    replace hFinish : finish p c a s.world = some w' := hFinish
    simp only [finish, Option.ite_none_right_eq_some, Option.some.injEq] at hFinish
    obtain ⟨-, rfl⟩ := hFinish
    exact nobodyClears_use (nobodyClears_update rfl h (h p))
  · intro p w' hCrash
    replace hCrash : crash p s.world = some w' := hCrash
    simp only [crash, Option.ite_none_right_eq_some, Option.some.injEq] at hCrash
    obtain ⟨-, rfl⟩ := hCrash
    exact nobodyClears_update rfl h rfl
  · intro oracle w' hEnv
    replace hEnv : groupEnds oracle s.world = some w' := hEnv
    simp only [groupEnds, Option.ite_none_right_eq_some, Option.some.injEq] at hEnv
    obtain ⟨-, rfl⟩ := hEnv
    exact h

/-- Where nobody clears a set, only its publisher empties a staging directory. -/
theorem diesCleanly_of_nobodyClears {choice : (system Details rounds).Choice}
    (hInv : Inv s.world) (h : NobodyClears s.world) (hCrash : ∀ p, choice = .crash p →
      s.world.life p = .alive) : DiesCleanly s choice := by
  cases choice with
  | crash p =>
      intro X q c hAlive hWrite hUnlink
      have hOwn : s.world.issuedTo X = some p := by
        rcases hInv.foreign (hCrash p rfl) hUnlink with hOwn | hClears
        · exact hOwn
        · rw [h p] at hClears
          cases hClears
      have hq := (hInv.armed hAlive hWrite).1
      rw [hOwn] at hq
      cases hq
      rw [hWrite] at hUnlink
      cases hUnlink
  | _ => trivial

theorem inv_of_noClearing {life : ClaimOwner → Life}
    (h : (system Details rounds).Reach NoClearing
      ((system Details rounds).start (World.init life)) s) : Inv s.world := by
  have hBoth : (system Details rounds).Reach DiesCleanly
      ((system Details rounds).start (World.init life)) s ∧ NobodyClears s.world := by
    induction h with
    | start => exact ⟨.start, fun _ => rfl⟩
    | step choice _ hOk hStep ih =>
        refine ⟨.step choice ih.1 ?_ hStep, nobodyClears_step ih.2 hOk hStep⟩
        refine diesCleanly_of_nobodyClears (inv_of_reach ih.1) ih.2 ?_
        rintro p rfl
        obtain ⟨w', hCrash, -⟩ := Option.map_eq_some_iff.mp hStep
        exact (Option.ite_none_right_eq_some.mp hCrash).1
  exact inv_of_reach hBoth.1

/-- A claim handed to a child is never freed while its owner, the child or a member of the
child's process group lives. -/
theorem handed_claim_retained {life : ClaimOwner → Life} (X : ClaimId)
    (hReach : (system Details rounds).Reach NoClearing
      ((system Details rounds).start (World.init life)) s) (hMarked : s.world.marked X = true)
    (hAttended : Attended s.world X) : Retained s.world X :=
  retained_of_inv (inv_of_noClearing hReach) hMarked hAttended

end System

/-! ## A handed claim -/

def child : ClaimOwner := ⟨13, 4⟩

/-- The publisher's claim in `quietRun`. -/
def handedClaim : ClaimHandle Unit :=
  ⟨claimPath .exclusive 100, 100, .exclusive, publisher, "", ()⟩

/-- The publisher marks its claim, spawns the child, records it and dies; the late-comer
inspects the set. -/
def handoverRun : List (system Unit 2).Choice :=
  quietRun ++ [.invoke publisher (.markClaimChildPending handedClaim)] ++
    requests publisher 100 2 ++ [.finish publisher] ++
    [.invoke publisher (.spawn handedClaim child)] ++ requests publisher 100 1 ++
    [.finish publisher] ++ [.invoke publisher (.setClaimChild handedClaim child)] ++
    requests publisher 100 2 ++ [.finish publisher, .crash publisher] ++
    [.invoke latecomer .inspectClaimSet] ++ requests latecomer 300 10 ++ [.finish latecomer]

theorem handed_claim_retained_run :
    ∃ s, (system Unit 2).Reach NoClearing
        ((system Unit 2).start (World.init threeAlive)) s ∧
      s.world.life publisher = .dead ∧ Retained s.world 100 := by
  have hRun : (((system Unit 2).run handoverRun
      ((system Unit 2).start (World.init threeAlive))).any fun s =>
        decide (s.world.life publisher = .dead ∧ s.world.marked 100 = true ∧
          s.world.spawned 100 = some child ∧ s.world.life child = .alive)) = true := by
    decide +kernel
  obtain ⟨s, hRun, hEnd⟩ := (Option.any_eq_true ..).mp hRun
  obtain ⟨hDead, hMarked, hSpawned, hAlive⟩ := of_decide_eq_true hEnd
  have hOk : ∀ choice ∈ handoverRun, ∀ s, NoClearing s choice := by
    intro choice hMem s
    cases choice with
    | invoke p c =>
        cases c with
        | clearFreeClaimSet startedAt details =>
            simp only [handoverRun, quietRun, requests, List.mem_append, List.mem_cons,
              List.mem_replicate, List.not_mem_nil, reduceCtorEq, and_false, or_false] at hMem
            rcases hMem with (((hMem | hMem) | hMem) | hMem) | hMem <;> cases hMem
        | _ => exact id
    | _ => trivial
  have hReach := System.Reach.of_run handoverRun .start hOk hRun
  exact ⟨s, hReach, hDead, handed_claim_retained 100 hReach hMarked
    (Or.inr ⟨child, hSpawned, Or.inl hAlive⟩)⟩

end Stim.OwnershipClaim
