import Stim.Core.OwnershipClaim.Inspection

/-!
# Removing staging entries

A process removes its own staging entries after a failed publication, and
`clearFreeClaimSet` removes everyone's.  Between taking the claim out of another
process's staging directory and removing that directory it is not ready.
-/

namespace Stim.OwnershipClaim

open Interleaving FileTree

variable {Details : Type} {rounds : Nat} {p : ClaimOwner} {w w' : World Details}
  {X Y : ClaimId} {m : ClaimMode} {α β : Type}

/-- `p` may empty the staging directory of `X`: it is its own, or `p` clears the set and
holds it exclusively. -/
def MaySweep (p : ClaimOwner) (w : World Details) (X : ClaimId) : Prop :=
  w.issuedTo X = some p ∨
    (w.memory p).clearing = true ∧ ∃ h ∈ (w.memory p).acquired, h.mode = .exclusive

theorem MaySweep.keeps (h : MaySweep p w X) (hKeeps : Keeps p w w') : MaySweep p w' X := by
  rcases h with hOwn | hClears
  · exact Or.inl (hKeeps.issued hOwn)
  · exact Or.inr (hKeeps.memory ▸ hClears)

/-- Ready, or in the middle of emptying the staging directory of `X`. -/
def MidSweep (w : World Details) (p : ClaimOwner) (X : ClaimId) : Prop :=
  w.life p = .alive ∧ (Ready w p ∨ w.last p = some (.unlink (stagedClaim X)))

theorem MidSweep.rely (h : MidSweep w p X) (hRely : Rely p w w') : MidSweep w' p X :=
  ⟨hRely.alive, h.2.imp (fun hReady => hReady.rely hRely) fun hLast => hRely.last.trans hLast⟩

/-- Whoever empties its own staging directory stays ready. -/
theorem MidSweep.ready (h : MidSweep w p X) (hX : w.issuedTo X = some p) : Ready w p := by
  rcases h.2 with hReady | hLast
  · exact hReady
  · refine ⟨h.1, fun Y hY => ?_⟩
    rw [hLast] at hY
    simp only [Option.some.injEq, Op.unlink.injEq, stagedClaim, List.cons.injEq,
      Name.staging.injEq, true_and] at hY
    exact hY.1 ▸ hX

/-- Taking the claim out of a staging directory. -/
theorem guar_unlink_staged {t : Tree Name (Content Details)} (hInv : Inv w)
    (hMid : MidSweep w p X) (hMay : MaySweep p w X) (hPar : Parented t)
    (ht : t = w.tree ∨ t = erase w.tree (stagedClaim X)) :
    (contract Details).Guar p w
      ((w.setTree t).note p (some (.unlink (stagedClaim X)))) := by
  rcases hMay with hOwn | ⟨hClearing, hHolds⟩
  · refine guar_act hInv (hMid.ready hOwn) ?_ ⟨nofun, fun Y hY => ?_⟩
    · intro hInv'
      rcases ht with rfl | rfl
      · exact shrinks_refl hInv' hMid.1
      · refine shrinks_erase_outer (w := w.note p none) (s := .staged X) hInv' hMid.1 trivial
          hPar ?_
        rintro Y ⟨⟩
        exact Or.inl hOwn
    · simp only [Op.unlink.injEq, stagedClaim, List.cons.injEq, Name.staging.injEq,
        true_and] at hY
      exact Or.inl (hY.1 ▸ hOwn)
  · exact guar_sweep hInv hMid.1 hMid.2 hClearing hHolds hPar ht

theorem keeps_of_mid {t : Tree Name (Content Details)} {s : Spot} {o : Op Details}
    (hs : s.isOuter) (hAlive : w.life p = .alive) (ht : t = w.tree ∨ t = erase w.tree s.path) :
    Keeps p w ((w.setTree t).note p (some o)) := by
  rcases ht with rfl | rfl
  · exact { Keeps.refl hAlive with }
  · exact keeps_erase_outer hs hAlive

/-- An attempt to remove a staging directory ends a sweep of it. -/
theorem guar_rmdir_staging (hInv : Inv w) (hMid : MidSweep w p X) {r : Except Errno Unit}
    (hPerform : some (applyTree w (rmdir w.tree (stagingPath X))) = some (r, w')) :
    (contract Details).Guar p w (w'.note p (some (.rmdir (stagingPath X)))) ∧
      Keeps p w (w'.note p (some (.rmdir (stagingPath X)))) ∧
      Ready (w'.note p (some (.rmdir (stagingPath X)))) p := by
  rcases applyTree_cases hPerform with ⟨t, hOk, rfl, rfl⟩ | ⟨e, hError, rfl, rfl⟩
  · have hPar := rmdir_parented hInv.parented hOk
    obtain ⟨-, -, rfl⟩ := rmdir_ok hOk
    exact ⟨guar_swept hInv hMid.1 hMid.2 hPar (Or.inr rfl),
      keeps_erase_outer (s := .staging X) trivial hMid.1, ready_note hMid.1 (by simp)⟩
  · refine ⟨guar_swept (t := w'.tree) hInv hMid.1 hMid.2 hInv.parented (Or.inl ⟨rfl, ?_⟩),
      { Keeps.refl hMid.1 with }, ready_note hMid.1 (by simp)⟩
    rcases rmdir_error hError with hDir | hFull
    · exact Or.inl hDir
    · obtain ⟨n, rest, node, hNode⟩ := exists_below hFull
      obtain ⟨rfl, rfl, -⟩ := hInv.below_staging hNode
      refine Or.inr fun hNone => ?_
      exact absurd (hNone.symm.trans hNode) (by simp)

variable [DecidableEq Details]

/-- Emptying a staging directory. -/
theorem safe_rmFiles (listed : List Name) (hNames : ∀ n ∈ listed, n = .claim X)
    (hMid : MidSweep w p X) (hMay : MaySweep p w X) :
    Safe (system Details rounds) (contract Details) p (rmFiles (stagingPath X) listed)
      (fun r v => Keeps p w v ∧ MidSweep v p X ∧ r = .ok ()) w := by
  induction listed generalizing w with
  | nil =>
      intro v _ hRely
      have hRely := hRely.2.2 hMid.1
      exact ⟨hRely.toKeeps, hMid.rely hRely, rfl⟩
  | cons name rest ih =>
      obtain rfl := hNames name (List.mem_cons_self ..)
      have hRest := fun n hn => hNames n (List.mem_cons_of_mem _ hn)
      unfold rmFiles rmFile
      rw [bind_assoc]
      intro v hInv hRely oracle r u hExec
      have hRely := hRely.2.2 hMid.1
      have hMidv := hMid.rely hRely
      have hMayv := hMay.keeps hRely.toKeeps
      obtain ⟨-, u, hPerform, rfl⟩ := exec_eq_some hExec
      have hNext : ∀ {t}, Parented t → (t = v.tree ∨ t = erase v.tree (stagedClaim X)) →
          (contract Details).Guar p v
            ((v.setTree t).note p (some (.unlink (stagedClaim X)))) ∧
          Safe (system Details rounds) (contract Details) p (rmFiles (stagingPath X) rest)
            (fun r v => Keeps p w v ∧ MidSweep v p X ∧ r = .ok ())
            ((v.setTree t).note p (some (.unlink (stagedClaim X)))) := by
        intro t hPar ht
        have hKeeps := keeps_of_mid (o := .unlink (stagedClaim X)) (s := .staged X)
          trivial hMidv.1 ht
        have hMid' : MidSweep ((v.setTree t).note p (some (.unlink (stagedClaim X)))) p X :=
          ⟨hMidv.1, Or.inr (by simp [World.note])⟩
        refine ⟨guar_unlink_staged hInv hMidv hMayv hPar ht,
          (ih hRest hMid' (hMayv.keeps hKeeps)).mono ?_⟩
        rintro r x - ⟨hKeepsx, hx⟩
        exact ⟨(hRely.toKeeps.trans hKeeps).trans hKeepsx, hx⟩
      rcases applyTree_cases hPerform with ⟨t, hOk, rfl, rfl⟩ | ⟨e, hError, rfl, rfl⟩
      · have hPar := unlink_parented hInv.parented (Spot.path_ne_nil (.staged X)) hOk
        obtain ⟨-, rfl⟩ := unlink_ok hOk
        exact hNext hPar (Or.inr rfl)
      · rcases unlink_error hError with ⟨rfl, -⟩ | ⟨rfl, hDir⟩
        · exact hNext hInv.parented (Or.inl rfl)
        · exact absurd rfl (hInv.below_staging (n := .claim X) hDir).2.2

/-- Removing an entry that is not a staged claim. -/
theorem does_rmFile {s : Spot} (hReady : Ready w p) (hs : s.isOuter)
    (hStaged : ∀ X, s ≠ .staged X) :
    Does rounds p (rmFile s.path : Code Details _) w (fun _ _ => True) := by
  unfold rmFile
  refine does_unlink hReady hStaged ?_ ?_
  · intro v _ hKeeps hPar
    exact ⟨fun hInv' => shrinks_erase_outer (w := v.note p none) hInv' hKeeps.alive hs hPar
      (fun X h => absurd h (hStaged X)), spares_erase_outer hs⟩
  · intro u r _ _ hReadyu _
    match r with
    | .ok () => exact Does.ret hReadyu fun _ _ _ => trivial
    | .error e => cases e <;> exact Does.ret hReadyu fun _ _ _ => trivial

theorem does_rmRecursive_staging (hReady : Ready w p) (hMay : MaySweep p w X) :
    Does rounds p (rmRecursive (stagingPath X) : Code Details _) w (fun _ _ => True) := by
  unfold rmRecursive
  refine does_lstat hReady ?_
  intro u hInvu hKeeps hReadyu
  cases hStat : get u.tree (stagingPath X) with
  | none => exact Does.ret hReadyu fun _ _ _ => trivial
  | some node =>
      cases node with
      | file c => exact does_rmFile (s := .staging X) hReadyu trivial (by simp)
      | dir =>
          refine does_readdir hReadyu ?_
          intro v hInvv hKeepsv hReadyv
          have hMayv := hMay.keeps (hKeeps.trans hKeepsv)
          cases hList : readdir v.tree (stagingPath X) with
          | error e => cases e <;> exact Does.ret hReadyv fun _ _ _ => trivial
          | ok listed =>
              have hNames : ∀ n ∈ listed, n = .claim X := by
                intro n hn
                obtain ⟨node, hNode⟩ :=
                  Option.ne_none_iff_exists'.mp ((mem_readdir hList n).mp hn)
                exact (hInvv.below_staging hNode).1
              refine Safe.bind (safe_rmFiles listed hNames ⟨hReadyv.1, Or.inl hReadyv⟩ hMayv) ?_
              rintro r x hInvx ⟨hKeepsx, hMidx, rfl⟩
              intro y hInvy hRely oracle r z hExec
              have hRely := hRely.2.2 hMidx.1
              obtain ⟨-, z, hPerform, rfl⟩ := exec_eq_some hExec
              obtain ⟨hGuar, hKeepsz, hReadyz⟩ :=
                guar_rmdir_staging hInvy (hMidx.rely hRely) hPerform
              refine ⟨hGuar, ?_⟩
              have hKeepsAll := (hKeepsx.trans hRely.toKeeps).trans hKeepsz
              have hRet : ∀ a : Except Errno Unit, Safe (system Details rounds)
                  (contract Details) p (pure a)
                  (fun _ b => Keeps p v b ∧ Ready b p ∧ True)
                  (z.note p (some (.rmdir (stagingPath X)))) := by
                intro a b hInvb hRelyb
                have hRelyb := hRelyb.2.2 hReadyz.1
                exact ⟨hKeepsAll.trans hRelyb.toKeeps, hReadyz.rely hRelyb, trivial⟩
              match r with
              | .ok () => exact hRet _
              | .error e => cases e <;> exact hRet _

theorem does_rmRecursive_stagingChild (hReady : Ready w p) :
    Does rounds p (rmRecursive (stagingChildPath X) : Code Details _) w
      (fun _ _ => True) := by
  unfold rmRecursive
  refine does_lstat hReady ?_
  intro u hInvu hKeeps hReadyu
  cases hStat : get u.tree (stagingChildPath X) with
  | none => exact Does.ret hReadyu fun _ _ _ => trivial
  | some node =>
      cases node with
      | file c => exact does_rmFile (s := .stagingChild X) hReadyu trivial (by simp)
      | dir => exact absurd hStat hInvu.stagingChild_file

/-- Removing every staging entry, while holding the set exclusively. -/
theorem does_removeStagings (listed : List Name) (hReady : Ready w p)
    (hClearing : (w.memory p).clearing = true)
    (hHolds : ∃ h ∈ (w.memory p).acquired, h.mode = .exclusive) :
    Does rounds p (removeStagings listed : Code Details _) w (fun _ _ => True) := by
  induction listed generalizing w with
  | nil => exact Does.ret hReady fun _ _ _ => trivial
  | cons name rest ih =>
      have hRest : ∀ v, Keeps p w v → Ready v p →
          Does rounds p (removeStagings rest : Code Details _) v (fun _ _ => True) := by
        intro v hKeeps hReadyv
        exact ih hReadyv (hKeeps.memory ▸ hClearing) (hKeeps.memory ▸ hHolds)
      unfold removeStagings
      cases name with
      | staging X =>
          apply Does.bind (does_rmRecursive_staging hReady (Or.inr ⟨hClearing, hHolds⟩))
          intro r v _ hKeeps hReadyv _
          cases r with
          | error e => exact Does.ret hReadyv fun _ _ _ => trivial
          | ok _ => exact hRest v hKeeps hReadyv
      | stagingChild X =>
          apply Does.bind (does_rmRecursive_stagingChild hReady)
          intro r v _ hKeeps hReadyv _
          cases r with
          | error e => exact Does.ret hReadyv fun _ _ _ => trivial
          | ok _ => exact hRest v hKeeps hReadyv
      | _ => exact ih hReady hClearing hHolds

end Stim.OwnershipClaim
