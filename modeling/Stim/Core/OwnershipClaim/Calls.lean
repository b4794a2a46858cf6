import Stim.Core.OwnershipClaim.Acquisition

/-!
# The calls of the claim store

What each call of the store answers and leaves behind.  A claim is answered as
`acquired` only when every held claim of the other mode was published after it
(`First`).
-/

namespace Stim.OwnershipClaim

open Interleaving FileTree

variable {Details : Type} {rounds : Nat} {p : ClaimOwner} {w w' : World Details}
  {X Y : ClaimId} {m : ClaimMode} {α β : Type}

/-! ## What a handle stands for -/

/-- A handle of a claim of `p` that is in place. -/
def Owns (p : ClaimOwner) (w : World Details) (h : ClaimHandle Details) : Prop :=
  h.path = claimPath h.mode h.claimId ∧ w.issuedTo h.claimId = some p ∧
    w.look (.claim h.mode h.claimId) ≠ none

theorem Owns.keeps {h : ClaimHandle Details} (hOwns : Owns p w h) (hKeeps : Keeps p w w') :
    Owns p w' h :=
  ⟨hOwns.1, hKeeps.issued hOwns.2.1, hKeeps.look_ne_none hOwns.2.1 hOwns.2.2⟩

/-- The first claim of its mode stays the first. -/
theorem First.keeps (hInv : Inv w) (hKeeps : Keeps p w w') (hX : w.issuedTo X = some p)
    (h : First w m X) : First w' m X := by
  have hMem := hInv.mem_published h.1
  refine ⟨hKeeps.look_ne_none hX h.1, fun m' Y hm hHeld => ?_⟩
  by_cases hY : Y ∈ w.published
  · exact precedes_of_isInit hKeeps.published hMem
      (h.2 m' Y hm (hKeeps.held hY hHeld))
  · exact precedes_of_notMem hKeeps.published hMem hY

/-- Nothing of the other mode was held since before `X` was published. -/
theorem first_of_clear {m' : ClaimMode} (hKeeps : Keeps p w w') (hX : X ∈ w.published)
    (hFile : w'.look (.claim m X) ≠ none) (hm : m ≠ m') (h : Clear w w' m') : First w' m X := by
  refine ⟨hFile, fun m'' Y hm'' hHeld => ?_⟩
  obtain rfl : m'' = m' := by
    cases m <;> cases m' <;> cases m'' <;> simp at hm hm'' ⊢
  exact precedes_of_notMem hKeeps.published hX fun hY => h Y hY hHeld

/-- Nothing holds any of these claims. -/
def AllBuried (w : World Details) (dead : List (ClaimHolder Details)) : Prop :=
  ∀ h ∈ dead, Buried w h

theorem AllBuried.ages {dead : List (ClaimHolder Details)} (h : AllBuried w dead)
    (hAges : Ages w w') : AllBuried w' dead :=
  fun x hx => (h x hx).ages hAges

theorem AllBuried.append {dead more : List (ClaimHolder Details)} (h : AllBuried w dead)
    (h' : AllBuried w more) : AllBuried w (dead ++ more) :=
  fun x hx => (List.mem_append.mp hx).elim (h x) (h' x)

/-- What an attempt's answer promises. -/
structure Answers (p : ClaimOwner) (r : Except ClaimError (ClaimAttempt Details))
    (v : World Details) : Prop where
  acquired : ∀ h reaped, r = .ok (.acquired h reaped) → Owns p v h ∧ First v h.mode h.claimId
  waiting : ∀ shared h reaped, r = .ok (.waitingFor shared h reaped) →
    Owns p v h ∧ h.mode = .exclusive
  reaped : ∀ attempt, r = .ok attempt → AllBuried v attempt.reaped

theorem Answers.keeps {r : Except ClaimError (ClaimAttempt Details)} (hInv : Inv w)
    (hKeeps : Keeps p w w') (h : Answers p r w) : Answers p r w' := by
  refine ⟨fun handle reaped hr => ?_, fun shared handle reaped hr => ?_, fun attempt hr => ?_⟩
  · obtain ⟨hOwns, hFirst⟩ := h.acquired handle reaped hr
    exact ⟨hOwns.keeps hKeeps, hFirst.keeps hInv hKeeps hOwns.2.1⟩
  · obtain ⟨hOwns, hMode⟩ := h.waiting shared handle reaped hr
    exact ⟨hOwns.keeps hKeeps, hMode⟩
  · exact (h.reaped attempt hr).ages hKeeps.toAges

/-- The claim of a new attempt's handle: of the mode asked for, and loose. -/
def NewClaim (p : ClaimOwner) (m : ClaimMode) (r : Except ClaimError (ClaimAttempt Details))
    (v : World Details) : Prop :=
  (∀ h reaped, r = .ok (.acquired h reaped) → Loose p v h.claimId ∧ h.mode = m) ∧
    ∀ shared h reaped, r = .ok (.waitingFor shared h reaped) →
      Loose p v h.claimId ∧ h.mode = m

theorem answers_error {e : ClaimError} : Answers p (.error e) w := ⟨nofun, nofun, nofun⟩

theorem newClaim_error {e : ClaimError} : NewClaim p m (.error e) w := ⟨nofun, nofun⟩

variable {reaped : List (ClaimHolder Details)}

theorem answers_held {holder : ClaimHolder Details} (hReaped : AllBuried w reaped) :
    Answers p (.ok (.held holder reaped)) w :=
  ⟨nofun, nofun, by rintro _ ⟨⟩; exact hReaped⟩

theorem newClaim_held {holder : ClaimHolder Details} :
    NewClaim p m (.ok (.held holder reaped)) w := ⟨nofun, nofun⟩

/-- A settled claim with nothing of the other mode before it may be answered as
`acquired`. -/
theorem answers_acquired {s : String} {d : Details} {m' : ClaimMode} {u : World Details}
    (hInv : Inv w) (hPublished : Published p w m X) (hKeeps : Keeps p w u) (hm : m ≠ m')
    (hClear : Clear w u m') (hReaped : AllBuried u reaped) :
    Answers p (.ok (.acquired ⟨claimPath m X, X, m, p, s, d⟩ reaped)) u ∧
      NewClaim p m (.ok (.acquired ⟨claimPath m X, X, m, p, s, d⟩ reaped)) u := by
  have hPublishedu := hPublished.keeps hKeeps
  refine ⟨⟨?_, nofun, ?_⟩, ⟨?_, nofun⟩⟩
  · rintro h _ ⟨⟩
    exact ⟨⟨rfl, hPublishedu.1.1, hPublishedu.2⟩, first_of_clear hKeeps
      (hInv.mem_published hPublished.2) hPublishedu.2 hm hClear⟩
  · rintro _ ⟨⟩
    exact hReaped
  · rintro h _ ⟨⟩
    exact ⟨hPublishedu.1, rfl⟩

theorem NewClaim.keeps {r : Except ClaimError (ClaimAttempt Details)}
    (hKeeps : Keeps p w w') (h : NewClaim p m r w) : NewClaim p m r w' :=
  ⟨fun handle reaped hr => ⟨(h.1 handle reaped hr).1.keeps hKeeps, (h.1 handle reaped hr).2⟩,
    fun shared handle reaped hr => ⟨(h.2 shared handle reaped hr).1.keeps hKeeps,
      (h.2 shared handle reaped hr).2⟩⟩

/-- What a round of `tryAcquireClaim` answers, when it answers. -/
def RoundAnswers (p : ClaimOwner) (m : ClaimMode)
    (r : Except ClaimError (Option (ClaimAttempt Details))) (v : World Details) : Prop :=
  ∀ attempt, r = .ok (some attempt) → Answers p (.ok attempt) v ∧ NewClaim p m (.ok attempt) v

theorem roundAnswers_some {attempt : ClaimAttempt Details} (hInv : Inv w) (hKeeps : Keeps p w w')
    (h : Answers p (.ok attempt) w ∧ NewClaim p m (.ok attempt) w) :
    RoundAnswers p m (.ok (some attempt)) w' := by
  rintro _ ⟨⟩
  exact ⟨h.1.keeps hInv hKeeps, h.2.keeps hKeeps⟩

/-! ## Releasing -/

variable {r : Except Errno Unit}

/-- Removing a file of one's own claim. -/
theorem guar_unlink_own {s : Spot} (hInv : Inv w) (hReady : Ready w p)
    (hX : w.issuedTo X = some p) (hMarked : w.marked X = false)
    (hs : s = .child m X ∨ s = .claim m X ∧ Bare p w m X)
    (hPerform : some (applyTree w (unlink w.tree s.path)) = some (r, w')) :
    (contract Details).Guar p w (w'.note p (some (.unlink s.path))) ∧
      Ready (w'.note p (some (.unlink s.path))) p ∧
      (r = .ok () ∨ r = .error .ENOENT → w'.look s = none) := by
  have hQuiet : ∀ Y, (.unlink s.path : Op Details) ≠ .unlink (stagedClaim Y) := by
    intro Y hEq
    have hs' : s = .staged Y := Spot.path_inj.mp (Op.unlink.inj hEq)
    rw [hs'] at hs
    simp at hs
  rcases applyTree_cases hPerform with ⟨t, hOk, rfl, rfl⟩ | ⟨e, hError, rfl, rfl⟩
  · have hPar := unlink_parented hInv.parented s.path_ne_nil hOk
    obtain ⟨-, rfl⟩ := unlink_ok hOk
    refine ⟨guar_act hInv hReady (fun hInv' => ?_) (notable_quiet (by simp) hQuiet),
      ready_note hReady.1 hQuiet, fun _ => by simp [get_erase]⟩
    exact shrinks_erase_claim (w := w.note p none) hInv' hReady.1 hs hPar (Or.inl ⟨hX, hMarked⟩)
  · obtain ⟨hGuar, -⟩ := guar_read (o := .unlink s.path) hInv hReady (by simp) hQuiet
    refine ⟨hGuar, ready_note hReady.1 hQuiet, ?_⟩
    rintro (hr | hr)
    · cases hr
    · cases hr
      exact unlink_error_ENOENT.mp hError

/-! ## Child records -/

/-- Writing the staging file of a child record. -/
theorem guar_write_stagingChild {c : Content Details} (hInv : Inv w) (hReady : Ready w p)
    (hX : w.issuedTo X = some p)
    (hPerform : some (applyTree w (writeFile w.tree (stagingChildPath X) c)) = some (r, w')) :
    (contract Details).Guar p w (w'.note p (some (.writeFile (stagingChildPath X) c))) ∧
      (r = .ok () → ∀ n, w'.look (.stagingChild X) = some n → n = .file c) := by
  have hQuiet : ∀ Y c', Op.writeFile (stagingChildPath X) c ≠
      .writeFile (stagedClaim Y) c' := by
    simp [stagingChildPath, stagedClaim]
  rcases applyTree_cases hPerform with ⟨t, hOk, rfl, rfl⟩ | ⟨e, hError, rfl, rfl⟩
  · have hPar := writeFile_parented hInv.parented hOk
    obtain ⟨-, -, rfl⟩ := writeFile_ok hOk
    refine ⟨guar_act hInv hReady (fun hInv' => ?_) (notable_quiet hQuiet (by simp)), ?_⟩
    · exact shrinks_put_outer (w := w.note p none) (s := .stagingChild X) hInv' hReady.1
        trivial hPar hX (by simp)
    · intro _ n hn
      simp only [World.look_setTree, Spot.path, get_put, if_true, Option.some.injEq] at hn
      exact hn.symm
  · obtain ⟨hGuar, -⟩ := guar_read (o := .writeFile (stagingChildPath X) c) hInv hReady hQuiet
      (by simp)
    exact ⟨hGuar, by simp⟩

/-- The rename that puts a child record in place. -/
theorem guar_rename_child {rec : Option ClaimOwner} {oracle : Oracle} (hInv : Inv w)
    (hReady : Ready w p) (hX : w.issuedTo X = some p) (hFile : w.look (.claim m X) ≠ none)
    (hRec : rec = none ∨ rec = w.spawned X)
    (hStaging : ∀ n, w.look (.stagingChild X) = some n → n = .file (.child rec))
    (hPerform : perform oracle p (.rename (stagingChildPath X) (Spot.child m X).path) w =
      some (r, w')) :
    (contract Details).Guar p w
        (w'.note p (some (.rename (stagingChildPath X) (Spot.child m X).path))) ∧
      w'.memory p = w.memory p ∧ w'.life p = .alive ∧ w'.issuedTo X = w.issuedTo X ∧
      (r = .ok () → w'.look (.child m X) = some (.file (.child rec))) := by
  have hNone : publishes (stagingChildPath X) (Spot.child m X).path = none := by
    cases m <;> rfl
  simp only [perform, hNone, Option.toList_none, List.append_nil] at hPerform
  split at hPerform
  · rename_i t hOk
    cases hPerform
    have hPar := rename_parented hInv.parented (Spot.path_ne_nil (.stagingChild X)) hOk
    rcases rename_ok hOk with ⟨c', hGet, -, -, rfl⟩ | ⟨hDir, -, -, -, rfl⟩
    · cases hStaging _ hGet
      have hBorn : ∀ c, rec = some c → w.group c ≠ .unborn ∧ 1 < c.pid := by
        rintro c rfl
        rcases hRec with hRec | hRec
        · cases hRec
        · exact hInv.spawned_born hRec.symm
      have hRecords : Records p w m X rec := ⟨hX, hReady.1, hFile, hRec, hBorn, hPar⟩
      refine ⟨guar_child (o := .rename (stagingChildPath X) (Spot.child m X).path) hInv hReady
        hRecords (notable_quiet (by simp) (by simp)), rfl, hReady.1, rfl, fun _ => ?_⟩
      exact (get_childTree (w := w) (.child m X)).trans (if_pos rfl)
    · exact absurd hDir hInv.stagingChild_file
  · cases hPerform
    obtain ⟨hGuar, -⟩ := guar_read
      (o := .rename (stagingChildPath X) (Spot.child m X).path) hInv hReady (by simp) (by simp)
    exact ⟨hGuar, rfl, hReady.1, rfl, by simp⟩

section Programs

variable [DecidableEq Details]

variable {Q : β → World Details → Prop}

theorem within_rmFile_own {s : Spot} {k : Except Errno Unit → Code Details β} (hReady : Ready w p)
    (hLoose : Loose p w X) (hs : s = .child m X ∨ s = .claim m X ∧ w.look (.child m X) = none)
    (h : ∀ u r, Inv u → Ready u p → Loose p u X → (r = .ok () → u.look s = none) →
      Within (sameMemory Details p) rounds (k r) u Q) :
    Within (sameMemory Details p) rounds (rmFile s.path >>= k) w Q := by
  unfold rmFile
  rw [bind_assoc]
  refine within_op hReady ?_
  intro v oracle r u hInv hRely hReadyv hPerform
  have hLoosev := hLoose.keeps hRely.toKeeps
  have hsv : s = .child m X ∨ s = .claim m X ∧ Bare p v m X :=
    hs.imp_right fun ⟨hEq, hNone⟩ =>
      ⟨hEq, (hRely.child_own hLoose.1).trans hNone, Or.inl hLoosev.2.2⟩
  obtain ⟨hGuar, hReadyu, hGone⟩ :=
    guar_unlink_own hInv hReadyv hLoosev.1 hLoosev.2.1 hsv hPerform
  obtain ⟨t, rfl⟩ := applyTree_setTree hPerform
  refine ⟨hGuar, rfl, ?_⟩
  match r, hGone with
  | .ok (), hGone => exact h _ _ hGuar.inv hReadyu hLoosev fun _ => hGone (Or.inl rfl)
  | .error .ENOENT, hGone => exact h _ _ hGuar.inv hReadyu hLoosev fun _ => hGone (Or.inr rfl)
  | .error .EEXIST, _ => exact h _ _ hGuar.inv hReadyu hLoosev nofun
  | .error .ENOTDIR, _ => exact h _ _ hGuar.inv hReadyu hLoosev nofun
  | .error .EISDIR, _ => exact h _ _ hGuar.inv hReadyu hLoosev nofun
  | .error .ENOTEMPTY, _ => exact h _ _ hGuar.inv hReadyu hLoosev nofun
  | .error .EINVAL, _ => exact h _ _ hGuar.inv hReadyu hLoosev nofun

variable {handle : ClaimHandle Details}

theorem within_releaseClaim (hReady : Ready w p)
    (hPath : handle.path = claimPath handle.mode handle.claimId)
    (hLoose : Loose p w handle.claimId) :
    Within (sameMemory Details p) rounds (releaseClaim handle) w (fun _ _ => True) := by
  unfold releaseClaim
  rw [hPath, childPath_claim]
  refine Within.after (Q := fun r v => Loose p v handle.claimId) ?_ ?_
  · rw [← bind_pure (readClaim _ _)]
    refine does_readClaim hReady ?_ ?_ ?_
    · exact fun u _ hKeeps hReadyu _ => Does.ret hReadyu fun v _ hKeepsv =>
        hLoose.keeps (hKeeps.trans hKeepsv)
    · exact fun u _ _ hKeeps hReadyu => Does.ret hReadyu fun v _ hKeepsv =>
        hLoose.keeps (hKeeps.trans hKeepsv)
    · exact fun u _ _ hKeeps hReadyu _ => Does.ret hReadyu fun v _ hKeepsv =>
        hLoose.keeps (hKeeps.trans hKeepsv)
  · intro r u hInvu _ hReadyu hLooseu
    cases r with
    | absent => exact Within.ret hReadyu fun _ _ _ => trivial
    | unreadable _ => exact Within.ret hReadyu fun _ _ _ => trivial
    | found current =>
        dsimp only
        split
        · exact Within.ret hReadyu fun _ _ _ => trivial
        · refine within_rmFile_own (m := handle.mode) hReadyu hLooseu (Or.inl rfl) ?_
          intro v r hInvv hReadyv hLoosev hGone
          cases r with
          | error _ => exact Within.ret hReadyv fun _ _ _ => trivial
          | ok _ =>
              refine within_rmFile_own (s := .claim handle.mode handle.claimId) hReadyv
                hLoosev (Or.inr ⟨rfl, hGone rfl⟩) ?_
              intro x r hInvx hReadyx _ _
              cases r with
              | error _ => exact Within.ret hReadyx fun _ _ _ => trivial
              | ok _ =>
                  refine Within.after (does_tidy (s := .dir handle.mode) hReadyx trivial) ?_
                  intro _ y _ _ hReadyy _
                  refine Within.after (does_tidy (s := .root) hReadyy trivial) ?_
                  intro _ z _ _ hReadyz _
                  exact Within.ret hReadyz fun _ _ _ => trivial

/-! ## Acquiring -/

theorem within_settleOrRelease {claim : ClaimHandle Details} (hReady : Ready w p)
    (hPath : claim.path = claimPath claim.mode claim.claimId)
    (hPublished : Published p w claim.mode claim.claimId) :
    Within (sameMemory Details p) rounds (settleOrRelease claim) w
      (fun r v => ∀ state, r = .ok state → Keeps p w v ∧
        (state.exclusive = none → Clear w v .exclusive) ∧
        (state.shared = [] → Clear w v .shared) ∧ AllBuried v state.reaped) := by
  unfold settleOrRelease
  refine Within.after (does_inspectClaimSet hReady) ?_
  intro r u hInvu hKeeps hReadyu hState
  match r, hState with
  | .ok state, hState =>
      refine Within.ret hReadyu fun v _ hKeepsv state' hEq => ?_
      cases hEq
      have hClear : ∀ {m}, Clear w u m → Clear w v m := fun hClear Y hY hHeld =>
        hClear Y hY (hKeepsv.held (hKeeps.mem_published hY) hHeld)
      obtain ⟨hExclusive, hShared, hReaped⟩ := hState state rfl
      exact ⟨hKeeps.trans hKeepsv, fun h => hClear (hExclusive h), fun h => hClear (hShared h),
        AllBuried.ages hReaped hKeepsv.toAges⟩
  | .error e, _ =>
      refine Within.bind (within_releaseClaim hReadyu hPath (hPublished.1.keeps hKeeps)) ?_
      intro _ v _ _ hReadyv _
      exact Within.ret hReadyv fun _ _ _ => nofun

/-- The id a round draws is new. -/
theorem within_randomUUID {k : ClaimId → Code Details β} (hReady : Ready w p)
    (h : ∀ u X, Inv u → Ready u p → Ages w u → Fresh p u X →
      u.look (.staging X) = none → Within (sameMemory Details p) rounds (k X) u Q) :
    Within (sameMemory Details p) rounds (ask .randomUUID >>= k) w Q := by
  refine within_op hReady ?_
  intro v oracle X u hInv hRely hReadyv hPerform
  simp only [perform] at hPerform
  split at hPerform
  · rename_i hNone
    cases hPerform
    have hGuar := guar_issue (o := .randomUUID) hInv hReadyv hNone
      (notable_quiet (by simp) (by simp))
    refine ⟨hGuar, rfl, h _ _ hGuar.inv (ready_note (w := v.issue p oracle.id) hReadyv.1
      (by simp)) (hRely.toAges.trans (guar_ages hGuar)) ⟨?_, hInv.fresh hNone⟩ ?_⟩
    · simp [World.note]
    · by_contra hSome
      exact hInv.staging_issued hSome hNone
  · cases hPerform

variable {d : Details} {s : String}

variable {n : Nat}

theorem within_publishAndSettle {reaped : List (ClaimHolder Details)} (hReady : Ready w p)
    (hReaped : AllBuried w reaped) :
    Within (sameMemory Details p) rounds (publishAndSettle n m p s d reaped) w
      (RoundAnswers p m) := by
  unfold publishAndSettle
  refine within_randomUUID hReady ?_
  intro u X hInvu hReadyu hAges hFresh hStaging
  cases m with
  | shared =>
      refine Within.bind (within_publishShared hReadyu hFresh) ?_
      intro r v hInvv hRelv hReadyv hResult
      rcases r with e | _ | path
      · exact Within.ret hReadyv fun _ _ _ _ h => by cases h
      · exact Within.ret hReadyv fun _ _ _ _ h => by cases h
      · obtain ⟨rfl, hPublished⟩ := hResult path rfl
        refine Within.bind (within_settleOrRelease hReadyv rfl hPublished) ?_
        intro r x hInvx hRelx hReadyx hSettled
        cases r with
        | error e => exact Within.ret hReadyx fun _ _ _ _ h => by cases h
        | ok settled =>
            obtain ⟨hKeeps, hExclusive, -, hReapedx⟩ := hSettled settled rfl
            have hAll := (hReaped.ages (hAges.trans (hRelv.2.trans hRelx.2))).append hReapedx
            dsimp only
            split
            · rename_i hNone
              exact Within.ret hReadyx fun y _ hKeepsy => roundAnswers_some hInvx hKeepsy
                (answers_acquired hInvv hPublished hKeeps (by simp) (hExclusive hNone) hAll)
            · refine Within.bind (within_releaseClaim hReadyx rfl
                (hPublished.1.keeps hKeeps)) ?_
              intro _ y hInvy hRely hReadyy _
              exact Within.ret hReadyy fun z _ hKeepsz => roundAnswers_some hInvy hKeepsz
                ⟨answers_held (hAll.ages hRely.2), newClaim_held⟩
  | exclusive =>
      refine Within.bind (within_publishExclusive hReadyu hFresh hStaging) ?_
      intro r v hInvv hRelv hReadyv hResult
      rcases r with e | _ | path
      · exact Within.ret hReadyv fun _ _ _ _ h => by cases h
      · exact Within.ret hReadyv fun _ _ _ _ h => by cases h
      · obtain ⟨rfl, hPublished⟩ := hResult path rfl
        refine Within.bind (within_settleOrRelease hReadyv rfl hPublished) ?_
        intro r x hInvx hRelx hReadyx hSettled
        cases r with
        | error e => exact Within.ret hReadyx fun _ _ _ _ h => by cases h
        | ok settled =>
            obtain ⟨hKeeps, -, hShared, hReapedx⟩ := hSettled settled rfl
            have hAll := (hReaped.ages (hAges.trans (hRelv.2.trans hRelx.2))).append hReapedx
            dsimp only
            split
            · rename_i hNone
              exact Within.ret hReadyx fun y _ hKeepsy => roundAnswers_some hInvx hKeepsy
                (answers_acquired hInvv hPublished hKeeps (by simp)
                  (hShared (List.isEmpty_iff.mp hNone)) hAll)
            · have hPublishedx := hPublished.keeps hKeeps
              refine Within.ret hReadyx fun y _ hKeepsy => roundAnswers_some hInvx hKeepsy ?_
              refine ⟨⟨(by simp), ?_, ?_⟩, ⟨(by simp), ?_⟩⟩
              · rintro _ h _ ⟨⟩
                exact ⟨⟨rfl, hPublishedx.1.1, hPublishedx.2⟩, rfl⟩
              · rintro _ ⟨⟩
                exact hAll
              · rintro _ h _ ⟨⟩
                exact ⟨hPublishedx.1, rfl⟩

theorem does_giveUp {reaped : List (ClaimHolder Details)} (hReady : Ready w p)
    (hReaped : AllBuried w reaped) :
    Does rounds p (giveUp m reaped) w (fun r v => Answers p r v ∧ NewClaim p m r v) := by
  unfold giveUp
  refine Does.bind (does_inspectClaimSet hReady) ?_
  intro r u _ hKeeps hReadyu hState
  match r, hState with
  | .error e, _ => exact Does.ret hReadyu fun _ _ _ => ⟨answers_error, newClaim_error⟩
  | .ok contender, hState =>
      have hAll := (hReaped.ages hKeeps.toAges).append (hState contender rfl).2.2
      dsimp only
      split
      · exact Does.ret hReadyu fun v _ hKeepsv =>
          ⟨answers_held (hAll.ages hKeepsv.toAges), newClaim_held⟩
      · exact Does.ret hReadyu fun _ _ _ => ⟨answers_error, newClaim_error⟩

theorem within_acquireLoop (attempts : Nat) (reaped : List (ClaimHolder Details))
    (hReady : Ready w p) (hReaped : AllBuried w reaped) :
    Within (sameMemory Details p) rounds (acquireLoop n m p s d attempts reaped) w
      (fun r v => Answers p r v ∧ NewClaim p m r v) := by
  induction attempts generalizing w reaped with
  | zero =>
      refine Safe.mono (Does.within (F := sameMemory Details p) (does_giveUp hReady hReaped)) ?_
      rintro _ _ _ ⟨hMemory, hReadyv, _, h⟩
      exact ⟨hMemory, hReadyv, h⟩
  | succ attempts ih =>
      unfold acquireLoop
      refine Within.bind (within_createClaimDir (s := .root) hReady (Or.inl trivial)).prepared
        ?_
      intro r u _ hRelu hReadyu _
      have hReapedu := hReaped.ages hRelu.2
      cases r with
      | error e =>
          dsimp only
          split
          · refine Safe.mono (Does.within (F := sameMemory Details p)
              (does_refuseNonDirectory hReadyu)) ?_
            rintro r x - ⟨hMemory, hReadyx, -, e', rfl⟩
            exact ⟨hMemory, hReadyx, answers_error, newClaim_error⟩
          · split
            · exact ih reaped hReadyu hReapedu
            · exact Within.ret hReadyu fun _ _ _ => ⟨answers_error, newClaim_error⟩
      | ok _ =>
          refine Within.after (does_inspectClaimSet hReadyu) ?_
          intro r v _ hKeepsv hReadyv hState
          cases r with
          | error e =>
              exact Within.ret hReadyv fun _ _ _ => ⟨answers_error, newClaim_error⟩
          | ok state =>
              have hAll := (hReapedu.ages hKeepsv.toAges).append (hState state rfl).2.2
              dsimp only
              split
              · exact Within.ret hReadyv fun x _ hKeepsx =>
                  ⟨answers_held (hAll.ages hKeepsx.toAges), newClaim_held⟩
              · refine Within.bind (within_publishAndSettle hReadyv hAll) ?_
                intro r x hInvx hRelx hReadyx hRound
                rcases r with e | _ | attempt
                · exact Within.ret hReadyx fun _ _ _ => ⟨answers_error, newClaim_error⟩
                · exact ih _ hReadyx (hAll.ages hRelx.2)
                · obtain ⟨hAnswers, hNew⟩ := hRound attempt rfl
                  exact Within.ret hReadyx fun y _ hKeeps =>
                    ⟨hAnswers.keeps hInvx hKeeps, hNew.keeps hKeeps⟩

theorem within_tryAcquireClaim (hReady : Ready w p) :
    Within (sameMemory Details p) rounds (tryAcquireClaim n m s d) w
      (fun r v => Answers p r v ∧ NewClaim p m r v) := by
  unfold tryAcquireClaim
  refine Within.after (Q := fun r _ => ∀ o, r = .ok o → o = p) ?_ ?_
  · rw [← bind_pure (ask .captureSelf)]
    exact does_captureSelf hReady fun u r _ _ hReadyu hr => Does.ret hReadyu fun _ _ _ => hr
  · intro r u _ _ hReadyu hr
    match r, hr with
    | .error reason, _ => exact Within.ret hReadyu fun _ _ _ => ⟨answers_error, newClaim_error⟩
    | .ok owner, hr =>
        obtain rfl := hr owner rfl
        exact within_acquireLoop _ _ hReadyu nofun

theorem does_settleClaim {pending : ClaimHandle Details} (hInv : Inv w) (hReady : Ready w p)
    (hOwns : Owns p w pending) (hMode : pending.mode = .exclusive) :
    Does rounds p (settleClaim pending) w (Answers p) := by
  unfold settleClaim
  refine Does.bind (does_inspectClaimSet hReady) ?_
  intro r u hInvu hKeeps hReadyu hState
  cases r with
  | error e => exact Does.ret hReadyu fun _ _ _ => answers_error
  | ok state =>
      have hOwnsu := hOwns.keeps hKeeps
      obtain ⟨-, hShared, hReaped⟩ := hState state rfl
      dsimp only
      split
      · rename_i hNone
        refine Does.ret hReadyu fun v _ hKeepsv =>
          Answers.keeps hInvu hKeepsv ⟨?_, (by simp), ?_⟩
        · rintro h _ ⟨⟩
          exact ⟨hOwnsu, first_of_clear hKeeps (hInv.mem_published hOwns.2.2) hOwnsu.2.2
            (by simp [hMode]) (hShared (List.isEmpty_iff.mp hNone))⟩
        · rintro _ ⟨⟩
          exact hReaped
      · refine Does.ret hReadyu fun v _ hKeepsv =>
          Answers.keeps hInvu hKeepsv ⟨(by simp), ?_, ?_⟩
        · rintro _ h _ ⟨⟩
          exact ⟨hOwnsu, hMode⟩
        · rintro _ ⟨⟩
          exact hReaped

/-! ## Clearing a set -/

theorem does_tidySet (hReady : Ready w p) :
    Does rounds p (tidySet : Code Details _) w (fun _ _ => True) := by
  unfold tidySet
  refine Does.bind (does_tidy (s := .dir .exclusive) hReady trivial) ?_
  intro _ u _ _ hReadyu _
  refine Does.bind (does_tidy (s := .dir .shared) hReadyu trivial) ?_
  intro _ v _ _ hReadyv _
  exact does_tidy (s := .root) hReadyv trivial

theorem does_removeAbandonedStaging (hReady : Ready w p)
    (hClearing : (w.memory p).clearing = true)
    (hHolds : ∃ h ∈ (w.memory p).acquired, h.mode = .exclusive) :
    Does rounds p (removeAbandonedStaging : Code Details _) w (fun _ _ => True) := by
  unfold removeAbandonedStaging
  refine does_names hReady (by simp [root]) ?_
  intro u listed _ hKeeps hReadyu _
  cases listed with
  | none => exact Does.ret hReadyu fun _ _ _ => trivial
  | some listed =>
      exact does_removeStagings listed hReadyu (hKeeps.memory ▸ hClearing)
        (hKeeps.memory ▸ hHolds)

/-- The frame without any promise. -/
def anything (Details : Type) (p : ClaimOwner) : Frame Details p where
  rel := fun _ _ => True
  trans := fun _ _ => trivial
  of_keeps := fun _ => trivial

theorem Within.anything {F : Frame Details p} {x : Code Details α}
    {Q : α → World Details → Prop} (h : Within F rounds x w Q) :
    Within (OwnershipClaim.anything Details p) rounds x w (fun a v => F.rel w v ∧ Q a v) :=
  Safe.mono h fun _ _ _ ⟨hRel, hReady, hQ⟩ =>
    ⟨⟨trivial, hRel.2⟩, hReady, hRel.1, hQ⟩

/-- Holding a claim in a variable while it is swept. -/
theorem within_remember {k : Unit → Code Details β} (hReady : Ready w p) (hOwns : Owns p w handle)
    (hInv : Inv w) (hFirst : First w handle.mode handle.claimId)
    (hLoose : Loose p w handle.claimId)
    (h : ∀ u, Inv u → Ready u p → u.issuedTo handle.claimId = some p →
      u.marked handle.claimId = false →
      u.memory p = { w.memory p with acquired := handle :: (w.memory p).acquired } →
      Within (anything Details p) rounds (k ()) u Q) :
    Within (anything Details p) rounds (ask (.remember handle) >>= k) w Q := by
  refine within_op hReady ?_
  intro v oracle r u hInvv hRely hReadyv hPerform
  cases hPerform
  have hOwnsv := hOwns.keeps hRely.toKeeps
  have hFirstv := hFirst.keeps hInv hRely.toKeeps hOwns.2.1
  have hLoosev := hLoose.keeps hRely.toKeeps
  have hOld := hInvv.recalls hReadyv.1
  have hRecalls : Recalls p v
      { v.memory p with acquired := handle :: (v.memory p).acquired }
      (handle.claimId :: v.granted) :=
    { handle := by
        rintro h (hMem | hMem)
        · rcases List.mem_cons.mp hMem with rfl | hMem
          · exact hOwnsv
          · exact hOld.handle (Or.inl hMem)
        · exact hOld.handle (Or.inr hMem)
      acquired := by
        intro h hMem
        rcases List.mem_cons.mp hMem with rfl | hMem
        · exact List.mem_cons_self ..
        · exact List.mem_cons_of_mem _ (hOld.acquired hMem)
      pending := hOld.pending
      buried := hOld.buried
      grows := fun hX => List.mem_cons_of_mem _ hX
      granted := by
        intro X hX
        rcases List.mem_cons.mp hX with rfl | hX
        · exact Or.inr ⟨handle.mode, hFirstv⟩
        · exact Or.inl hX }
  have hGuar := guar_recall_note (o := .remember handle) hInvv hReadyv hRecalls
    (notable_quiet (by simp) (by simp))
  refine ⟨hGuar, trivial, h _ hGuar.inv ?_ hLoosev.1 hLoosev.2.1 ?_⟩
  · exact ready_note (w := v.recall p _ _) hReadyv.1 (by simp)
  · rw [← hRely.memory]
    simp [World.note]

theorem within_forget {k : Unit → Code Details β} (hReady : Ready w p)
    (hX : w.issuedTo handle.claimId = some p) (hMarked : w.marked handle.claimId = false)
    (hPending : ∀ h ∈ (w.memory p).pending, h.claimId ≠ handle.claimId)
    (h : ∀ u, Inv u → Ready u p → Loose p u handle.claimId →
      Within (anything Details p) rounds (k ()) u Q) :
    Within (anything Details p) rounds (ask (.forget handle) >>= k) w Q := by
  refine within_op hReady ?_
  intro v oracle r u hInvv hRely hReadyv hPerform
  cases hPerform
  have hOld := hInvv.recalls hReadyv.1
  have hRecalls : Recalls p v
      { v.memory p with
        acquired := (v.memory p).acquired.filter fun h => h.claimId ≠ handle.claimId }
      v.granted :=
    { hOld with
      handle := by
        rintro h (hMem | hMem)
        · exact hOld.handle (Or.inl (List.mem_filter.mp hMem).1)
        · exact hOld.handle (Or.inr hMem)
      acquired := fun hMem => hOld.acquired (List.mem_filter.mp hMem).1 }
  have hGuar := guar_recall_note (o := .forget handle) hInvv hReadyv hRecalls
    (notable_quiet (by simp) (by simp))
  refine ⟨hGuar, trivial, h _ hGuar.inv ?_ ⟨hRely.issued hX,
    (hRely.marked_own hX).trans hMarked, ?_⟩⟩
  · exact ready_note (w := v.recall p _ _) hReadyv.1 (by simp)
  · rintro h (hMem | hMem)
    · simp only [Function.update_self, World.note, List.mem_filter, decide_eq_true_eq] at hMem
      exact hMem.2
    · simp only [Function.update_self, World.note] at hMem
      rw [hRely.memory] at hMem
      exact hPending h hMem

theorem within_clearFreeClaimSet (hReady : Ready w p) (hClearing : (w.memory p).clearing = true) :
    Within (anything Details p) rounds (clearFreeClaimSet n s d) w (fun _ _ => True) := by
  unfold clearFreeClaimSet
  refine Within.bind (within_tryAcquireClaim hReady).anything ?_
  rintro r u hInvu - hReadyu ⟨hMemory, hAnswers, hNew⟩
  cases r with
  | error e => cases e <;> exact Within.ret hReadyu fun _ _ _ => trivial
  | ok attempt =>
      cases attempt with
      | held holder _ => exact Within.ret hReadyu fun _ _ _ => trivial
      | waitingFor shared pending _ =>
          refine Within.bind (within_releaseClaim hReadyu (hAnswers.waiting _ _ _ rfl).1.1
            (hNew.2 _ _ _ rfl).1).anything ?_
          intro _ v _ _ hReadyv _
          exact Within.ret hReadyv fun _ _ _ => trivial
      | acquired handle _ =>
          obtain ⟨hOwns, hFirst⟩ := hAnswers.acquired _ _ rfl
          obtain ⟨hLoose, hMode⟩ := hNew.1 _ _ rfl
          refine within_remember hReadyu hOwns hInvu hFirst hLoose ?_
          intro v hInvv hReadyv hX hMarked hMemoryv
          have hClearingv : (v.memory p).clearing = true := by
            rw [hMemoryv, hMemory]
            exact hClearing
          have hHolds : ∃ h ∈ (v.memory p).acquired, h.mode = .exclusive := by
            rw [hMemoryv]
            exact ⟨handle, List.mem_cons_self .., hMode⟩
          refine Within.after (does_removeAbandonedStaging hReadyv hClearingv hHolds) ?_
          intro removed x hInvx hKeeps hReadyx _
          refine within_forget hReadyx (hKeeps.issued hX)
            ((hKeeps.marked_own hX).trans hMarked) ?_ ?_
          · rw [hKeeps.memory, hMemoryv]
            exact fun h hMem => hLoose.2.2 h (Or.inr hMem)
          intro y hInvy hReadyy hLoosey
          refine Within.bind (within_releaseClaim hReadyy hOwns.1 hLoosey).anything ?_
          intro _ z _ _ hReadyz _
          cases removed with
          | error _ => exact Within.ret hReadyz fun _ _ _ => trivial
          | ok _ =>
              refine Within.after (does_tidySet hReadyz) ?_
              intro _ a _ _ hReadya _
              refine Within.after (Q := fun _ _ => True) ?_ ?_
              · rw [← bind_pure (names root)]
                exact does_names hReadya (by simp [root]) fun b l _ _ hReadyb _ =>
                  Does.ret hReadyb fun _ _ _ => trivial
              · intro listed b _ _ hReadyb _
                cases listed with
                | none => exact Within.ret hReadyb fun _ _ _ => trivial
                | some remaining =>
                    refine Within.after (does_readClaimSet hReadyb) ?_
                    intro _ c _ _ hReadyc _
                    exact Within.ret hReadyc fun _ _ _ => trivial

/-! ## Handing a claim to a child -/

theorem within_stageChild {rec : Option ClaimOwner} (hInv : Inv w) (hReady : Ready w p)
    (hHas : (w.memory p).Has handle) (hRec : rec = none ∨ rec = w.spawned handle.claimId) :
    Within (sameMemory Details p) rounds (stageChild handle rec) w
      (fun r v => r = .ok () →
        v.look (.child handle.mode handle.claimId) = some (.file (.child rec))) := by
  have hOwns := hInv.handle hReady.1 hHas
  unfold stageChild
  rw [hOwns.1, childPath_claim]
  refine within_op hReady ?_
  intro v oracle r x hInvv hRely hReadyv hPerform
  have hX := hRely.issued hOwns.2.1
  obtain ⟨hGuar, hFile⟩ := guar_write_stagingChild hInvv hReadyv hX hPerform
  obtain ⟨t, rfl⟩ := applyTree_setTree hPerform
  refine ⟨hGuar, rfl, ?_⟩
  have hReadyx := ready_note (w := v.setTree t) (p := p)
    (o := .writeFile (stagingChildPath handle.claimId) (.child rec)) hReadyv.1 (by simp)
  match r, hFile with
  | .error e, _ => exact Within.ret hReadyx fun y _ hKeeps => nofun
  | .ok (), hFile =>
      dsimp only
      rw [← bind_pure (ask (.rename _ _))]
      refine within_op hReadyx ?_
      intro y oracle r z hInvy hRelyy hReadyy hPerform
      have hHasy : (y.memory p).Has handle := by
        rw [hRelyy.memory]
        show (v.memory p).Has handle
        rw [hRely.memory]
        exact hHas
      have hOwnsy := hInvy.handle hReadyy.1 hHasy
      have hRecy : rec = none ∨ rec = y.spawned handle.claimId :=
        hRec.imp_right fun h =>
          (h.trans (hRely.spawned_own hOwns.2.1).symm).trans (hRelyy.spawned_own hX).symm
      obtain ⟨hGuar, hMemory, hAlive, hIssued, hPlaced⟩ := guar_rename_child hInvy hReadyy
        hOwnsy.2.1 hOwnsy.2.2 hRecy
        (fun n hn => hFile rfl n (hRelyy.stagingChild_own hX hn)) hPerform
      refine ⟨hGuar, hMemory, Within.ret (ready_note hAlive (by simp)) ?_⟩
      exact fun b _ hKeeps hr =>
        (hKeeps.child_own (hIssued.trans hOwnsy.2.1)).trans (hPlaced hr)

theorem within_writeChild {rec : Option ClaimOwner} (hInv : Inv w) (hReady : Ready w p)
    (hHas : (w.memory p).Has handle) (hRec : rec = none ∨ rec = w.spawned handle.claimId) :
    Within (sameMemory Details p) rounds (writeChild handle rec) w
      (fun r v => r = .ok () →
        v.look (.child handle.mode handle.claimId) = some (.file (.child rec))) := by
  unfold writeChild
  refine Within.bind (within_stageChild hInv hReady hHas hRec) ?_
  intro r u hInvu ⟨hMemory, _⟩ hReadyu hPlaced
  match r, hPlaced with
  | .ok (), hPlaced =>
      have hX := (hInvu.handle hReadyu.1 (hMemory ▸ hHas)).2.1
      exact Within.ret hReadyu fun v _ hKeeps _ => (hKeeps.child_own hX).trans (hPlaced rfl)
  | .error e, _ =>
      refine Within.after (does_rmFile (s := .stagingChild handle.claimId) hReadyu trivial
        (by simp)) ?_
      intro _ v _ _ hReadyv _
      exact Within.ret hReadyv fun _ _ _ => nofun

theorem within_clearClaimChild (hInv : Inv w) (hReady : Ready w p)
    (hHas : (w.memory p).Has handle) (hMarked : w.marked handle.claimId = false) :
    Within (sameMemory Details p) rounds (clearClaimChild handle) w (fun _ _ => True) := by
  obtain ⟨hPath, hX, -⟩ := hInv.handle hReady.1 hHas
  unfold clearClaimChild rmFile
  rw [hPath, childPath_claim]
  refine within_op hReady ?_
  intro v oracle r u hInvv hRely hReadyv hPerform
  obtain ⟨hGuar, hReadyu, -⟩ := guar_unlink_own (s := .child handle.mode handle.claimId) hInvv
    hReadyv (hRely.issued hX) ((hRely.marked_own hX).trans hMarked) (Or.inl rfl) hPerform
  obtain ⟨t, rfl⟩ := applyTree_setTree hPerform
  refine ⟨hGuar, rfl, ?_⟩
  match r with
  | .ok () => exact Within.ret hReadyu fun _ _ _ => trivial
  | .error e => cases e <;> exact Within.ret hReadyu fun _ _ _ => trivial

theorem within_spawn {child : ClaimOwner} (hInv : Inv w) (hReady : Ready w p)
    (hHas : (w.memory p).Has handle) (hNone : w.spawned handle.claimId = none) :
    Within (sameMemory Details p) rounds (ask (.spawn handle.claimId child)) w
      (fun _ _ => True) := by
  have hX := (hInv.handle hReady.1 hHas).2.1
  rw [← bind_pure (ask (.spawn handle.claimId child))]
  refine within_op hReady ?_
  intro v oracle r u hInvv hRely hReadyv hPerform
  simp only [perform] at hPerform
  split at hPerform
  · rename_i hFresh
    obtain ⟨hLife, hGroup, hPid⟩ := hFresh
    cases hPerform
    have hNe : p ≠ child := by
      rintro rfl
      exact absurd (hReadyv.1.symm.trans hLife) (by simp)
    refine ⟨guar_spawn (o := .spawn handle.claimId child) hInvv hReadyv (hRely.issued hX)
      ((hRely.spawned_own hX).trans hNone) hLife hGroup hPid
      (notable_quiet (by simp) (by simp)), rfl, ?_⟩
    refine Within.ret (ready_note (w := v.spawn handle.claimId child) ?_ (by simp))
      fun _ _ _ => trivial
    simp [World.spawn, hNe, hReadyv.1]
  · cases hPerform

end Programs

end Stim.OwnershipClaim
