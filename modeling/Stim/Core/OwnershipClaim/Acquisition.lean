import Stim.Core.OwnershipClaim.Staging

/-!
# Publishing a claim

The specifications of `createClaimDir`, `publishExclusive` and `publishShared`.
These programs change what their own process owns, so each stays within a
`Frame` of its own instead of keeping everything.
-/

namespace Stim.OwnershipClaim

open Interleaving FileTree

variable {Details : Type} {rounds : Nat} {p : ClaimOwner} {w w' : World Details}
  {X Y : ClaimId} {m : ClaimMode} {α β : Type}

/-! ## Programs within a frame -/

/-- What a process's own program is allowed to change: a preorder on worlds that
contains everything others may do. -/
structure Frame (Details : Type) (p : ClaimOwner) where
  rel : World Details → World Details → Prop
  trans : ∀ {u v w}, rel u v → rel v w → rel u w
  of_keeps : ∀ {u v}, Keeps p u v → rel u v

/-- What a program in the frame does to the world. -/
def Frame.Rel (F : Frame Details p) (u v : World Details) : Prop := F.rel u v ∧ Ages u v

theorem Frame.Rel.of_keeps {F : Frame Details p} (h : Keeps p w w') : F.Rel w w' :=
  ⟨F.of_keeps h, h.toAges⟩

theorem Frame.Rel.trans {F : Frame Details p} {u v : World Details} (h : F.Rel u v)
    (h' : F.Rel v w) : F.Rel u w :=
  ⟨F.trans h.1 h'.1, h.2.trans h'.2⟩

section Within

variable [DecidableEq Details] {F : Frame Details p}

/-- `x`, run by a ready `p` from `w`, stays in the frame and ends ready with `Q`. -/
def Within (F : Frame Details p) (rounds : Nat) (x : Code Details α) (w : World Details)
    (Q : α → World Details → Prop) : Prop :=
  Safe (system Details rounds) (contract Details) p x
    (fun a v => F.Rel w v ∧ Ready v p ∧ Q a v) w

variable {Q : α → World Details → Prop} {x : Code Details α}

theorem Does.within (h : Does rounds p x w Q) :
    Within F rounds x w (fun a v => Keeps p w v ∧ Q a v) :=
  Safe.mono h fun _ _ _ ⟨hKeeps, hReady, hQ⟩ => ⟨.of_keeps hKeeps, hReady, hKeeps, hQ⟩

theorem Within.ret {a : α} (hReady : Ready w p) (hQ : ∀ v, Inv v → Keeps p w v → Q a v) :
    Within F rounds (pure a) w Q :=
  Safe.mono (Does.ret hReady hQ) fun _ _ _ ⟨hKeeps, h⟩ => ⟨.of_keeps hKeeps, h⟩

theorem Within.bind {f : α → Code Details β} {Q' : β → World Details → Prop}
    (hx : Within F rounds x w Q)
    (hf : ∀ a v, Inv v → F.Rel w v → Ready v p → Q a v → Within F rounds (f a) v Q') :
    Within F rounds (x >>= f) w Q' := by
  refine Safe.bind hx ?_
  rintro a v hInv ⟨hRel, hReady, hQ⟩
  exact (hf a v hInv hRel hReady hQ).mono
    fun b u _ ⟨hRel', hReady', hQ'⟩ => ⟨hRel.trans hRel', hReady', hQ'⟩

theorem Within.after {f : α → Code Details β} {Q' : β → World Details → Prop}
    (hx : Does rounds p x w Q)
    (hf : ∀ a v, Inv v → Keeps p w v → Ready v p → Q a v → Within F rounds (f a) v Q') :
    Within F rounds (x >>= f) w Q' :=
  Within.bind hx.within fun a v hInv _ hReady ⟨hKeeps, hQ⟩ => hf a v hInv hKeeps hReady hQ

theorem within_op {o : Op Details} {k : Res Details o → Code Details β}
    {Q : β → World Details → Prop} (hReady : Ready w p)
    (h : ∀ v oracle r u, Inv v → Rely p w v → Ready v p →
      perform oracle p o v = some (r, u) →
        (contract Details).Guar p v (u.note p (some o)) ∧ F.rel v (u.note p (some o)) ∧
          Within F rounds (k r) (u.note p (some o)) Q) : Within F rounds (ask o >>= k) w Q := by
  intro v hInv hRely oracle r u hExec
  have hRely := hRely.2.2 hReady.1
  obtain ⟨-, u, hPerform, rfl⟩ := exec_eq_some hExec
  obtain ⟨hGuar, hRel, hNext⟩ :=
    h v oracle r u hInv hRely (hReady.rely hRely) hPerform
  refine ⟨hGuar, hNext.mono ?_⟩
  rintro b x - ⟨hRel', hReady', hQ⟩
  exact ⟨((Frame.Rel.of_keeps hRely.toKeeps).trans ⟨hRel, guar_ages hGuar⟩).trans hRel', hReady', hQ⟩

end Within

/-! ## Creating directories -/

/-- What preparing a publication changes: only directories of the store and the process's
own staging directories appear. -/
structure Stages (p : ClaimOwner) (w u : World Details) : Prop where
  memory : u.memory p = w.memory p
  issued : ∀ {X o}, w.issuedTo X = some o → u.issuedTo X = some o
  unpublished : ∀ {X}, w.issuedTo X = some p → X ∈ u.published → X ∈ w.published
  staging : ∀ {X n}, w.issuedTo X = some p → u.look (.staging X) = some n →
    w.look (.staging X) = some n ∨ n = .dir

def stages (Details : Type) (p : ClaimOwner) : Frame Details p where
  rel := Stages p
  trans := fun h h' =>
    { memory := h'.memory.trans h.memory
      issued := fun hX => h'.issued (h.issued hX)
      unpublished := fun hX hMem => h.unpublished hX (h'.unpublished (h.issued hX) hMem)
      staging := fun hX hn =>
        (h'.staging (h.issued hX) hn).elim (h.staging hX) Or.inr }
  of_keeps := fun h =>
    { memory := h.memory
      issued := h.issued
      unpublished := h.unpublished
      staging := fun hX hn => Or.inl (h.staging_own hX hn) }

/-- A directory `p` may create. -/
def Makeable (p : ClaimOwner) (w : World Details) (s : Spot) : Prop :=
  s.isDir ∨ ∃ X, s = .staging X ∧ w.issuedTo X = some p

theorem Makeable.stages {s : Spot} (h : Makeable p w s) (hStages : Stages p w w') :
    Makeable p w' s :=
  h.imp_right fun ⟨X, hs, hX⟩ => ⟨X, hs, hStages.issued hX⟩

theorem Makeable.isOuter {s : Spot} (h : Makeable p w s) : s.isOuter := by
  rcases h with hDir | ⟨X, rfl, -⟩
  · exact hDir.isOuter
  · trivial

/-- The parent of a directory other than the root is the root. -/
theorem Makeable.dropLast {s : Spot} (h : Makeable p w s) :
    s = .root ∨ s.path.dropLast = (Spot.root).path := by
  rcases h with hDir | ⟨X, rfl, -⟩
  · cases s with
    | root => exact Or.inl rfl
    | dir m => exact Or.inr (by cases m <;> rfl)
    | _ => exact absurd hDir id
  · exact Or.inr rfl

theorem mkdir_root_ne (t : Tree Name (Content Details)) : mkdir t root ≠ .error .ENOENT := by
  unfold mkdir parentError
  simp only [root, List.dropLast_singleton, if_true]
  split <;> simp

variable {r : Except Errno Unit}

theorem guar_mkdir {s : Spot} (hInv : Inv w) (hReady : Ready w p) (hs : Makeable p w s)
    (hPerform : some (applyTree w (mkdir w.tree s.path)) = some (r, w')) :
    (contract Details).Guar p w (w'.note p (some (.mkdir s.path))) ∧
      Stages p w (w'.note p (some (.mkdir s.path))) ∧
      Ready (w'.note p (some (.mkdir s.path))) p := by
  have hNotable : ∀ {v : World Details}, Notable p v (.mkdir s.path) :=
    notable_quiet (by simp) (by simp)
  rcases applyTree_cases hPerform with ⟨t, hOk, rfl, rfl⟩ | ⟨e, hError, rfl, rfl⟩
  · have hPar := mkdir_parented hInv.parented hOk
    obtain ⟨-, -, rfl⟩ := mkdir_ok hOk
    refine ⟨guar_act hInv hReady (fun hInv' => ?_) hNotable, ?_,
      ready_note hReady.1 (by simp)⟩
    · refine shrinks_put_outer (w := w.note p none) hInv' hReady.1 hs.isOuter hPar ?_ ?_
      · rcases hs with hDir | ⟨X, rfl, hX⟩
        · exact hDir.ownedBy
        · exact hX
      · intro Y hY
        rcases hs with hDir | ⟨X, rfl, -⟩
        · rcases hY with rfl | rfl <;> exact absurd hDir id
        · simp at hY
    · refine ⟨rfl, id, fun _ h => h, ?_⟩
      intro Y n _ hn
      simp only [World.look_note, World.look_setTree, get_put] at hn
      split at hn
      · exact Or.inr (Option.some.inj hn).symm
      · exact Or.inl hn
  · obtain ⟨hGuar, hKeeps⟩ :=
      guar_read (o := .mkdir s.path) hInv hReady (by simp) (by simp)
    exact ⟨hGuar, (stages Details p).of_keeps hKeeps, ready_note hReady.1 (by simp)⟩

section Directories

variable [DecidableEq Details]

variable {path : ClaimPath}

theorem does_stat (hReady : Ready w p) :
    Does rounds p (ask (.lstat path : Op Details)) w (fun _ _ => True) :=
  does_lstat (k := pure) hReady fun _ _ _ hReadyv => Does.ret hReadyv fun _ _ _ => trivial

theorem within_mkdir {s : Spot} {k : Except Errno Unit → Code Details β}
    {Q : β → World Details → Prop} (hReady : Ready w p) (hs : Makeable p w s)
    (h : ∀ u r, Inv u → Stages p w u → Ready u p → (s = .root → r ≠ .error .ENOENT) →
      Within (stages Details p) rounds (k r) u Q) :
    Within (stages Details p) rounds (ask (.mkdir s.path) >>= k) w Q := by
  refine within_op hReady ?_
  intro v oracle r u hInv hRely hReadyv hPerform
  have hStages := (stages Details p).of_keeps hRely.toKeeps
  obtain ⟨hGuar, hStages', hReady'⟩ := guar_mkdir hInv hReadyv (hs.stages hStages) hPerform
  refine ⟨hGuar, hStages', h _ r hGuar.inv ((stages Details p).trans hStages hStages')
    hReady' ?_⟩
  rintro rfl rfl
  rcases applyTree_cases hPerform with ⟨t, -, hr, -⟩ | ⟨e, hError, hr, -⟩
  · cases hr
  · cases hr
    exact mkdir_root_ne _ hError

theorem within_mkdirRecursive (n : Nat) {s : Spot} (hReady : Ready w p) (hs : Makeable p w s) :
    Within (stages Details p) rounds (mkdirRecursive n s.path : Code Details _) w
      (fun _ _ => True) := by
  induction n generalizing w s with
  | zero => exact Within.ret hReady fun _ _ _ => trivial
  | succ n ih =>
      unfold mkdirRecursive
      refine within_mkdir hReady hs ?_
      intro u r hInvu hStages hReadyu hRoot
      match r, hRoot with
      | .ok (), _ => exact Within.ret hReadyu fun _ _ _ => trivial
      | .error .ENOENT, hRoot =>
          have hParent := hs.dropLast.resolve_left fun h => hRoot h rfl
          simp only [hParent]
          refine Within.bind (ih (s := .root) hReadyu (Or.inl trivial)) ?_
          intro r v _ hStages' hReadyv _
          match r with
          | .error e => exact Within.ret hReadyv fun _ _ _ => trivial
          | .ok () => exact ih hReadyv ((hs.stages hStages).stages hStages'.1)
      | .error .EEXIST, _ =>
          refine Within.after (does_stat hReadyu) ?_
          intro r v _ _ hReadyv _
          match r with
          | some .dir => exact Within.ret hReadyv fun _ _ _ => trivial
          | some (.file _) => exact Within.ret hReadyv fun _ _ _ => trivial
          | none => exact Within.ret hReadyv fun _ _ _ => trivial
      | .error .ENOTDIR, _ => exact Within.ret hReadyu fun _ _ _ => trivial
      | .error .EISDIR, _ => exact Within.ret hReadyu fun _ _ _ => trivial
      | .error .ENOTEMPTY, _ => exact Within.ret hReadyu fun _ _ _ => trivial
      | .error .EINVAL, _ => exact Within.ret hReadyu fun _ _ _ => trivial

theorem does_missingLevels (paths : List ClaimPath) (hReady : Ready w p) :
    Does rounds p (missingLevels paths : Code Details _) w
      (fun r _ => ∀ path ∈ r, path ∈ paths) := by
  induction paths generalizing w with
  | nil => exact Does.ret hReady fun _ _ _ => (by simp)
  | cons level rest ih =>
      unfold missingLevels
      refine Does.bind (does_stat hReady) ?_
      intro r u _ _ hReadyu _
      cases r with
      | some _ => exact Does.ret hReadyu fun _ _ _ => (by simp)
      | none =>
          refine Does.bind (ih hReadyu) ?_
          intro r v _ _ hReadyv hr
          refine Does.ret hReadyv fun _ _ _ path hPath => ?_
          rcases List.mem_cons.mp hPath with rfl | hPath
          · exact List.mem_cons_self ..
          · exact List.mem_cons_of_mem _ (hr path hPath)

theorem within_createLevels (paths : List ClaimPath) (hReady : Ready w p)
    (hPaths : ∀ path ∈ paths, ∃ s, Makeable p w s ∧ path = s.path) :
    Within (stages Details p) rounds (createLevels paths : Code Details _) w
      (fun _ _ => True) := by
  induction paths generalizing w with
  | nil => exact Within.ret hReady fun _ _ _ => trivial
  | cons level rest ih =>
      unfold createLevels
      obtain ⟨s, hs, rfl⟩ := hPaths level (List.mem_cons_self ..)
      refine within_mkdir hReady hs ?_
      intro u r _ hStages hReadyu _
      have hRest : ∀ path ∈ rest, ∃ s, Makeable p u s ∧ path = s.path := by
        intro path hPath
        obtain ⟨s, hs, hEq⟩ := hPaths path (List.mem_cons_of_mem _ hPath)
        exact ⟨s, hs.stages hStages, hEq⟩
      match r with
      | .ok () => exact ih hReadyu hRest
      | .error .EEXIST => exact ih hReadyu hRest
      | .error .ENOENT => exact Within.ret hReadyu fun _ _ _ => trivial
      | .error .ENOTDIR => exact Within.ret hReadyu fun _ _ _ => trivial
      | .error .EISDIR => exact Within.ret hReadyu fun _ _ _ => trivial
      | .error .ENOTEMPTY => exact Within.ret hReadyu fun _ _ _ => trivial
      | .error .EINVAL => exact Within.ret hReadyu fun _ _ _ => trivial

omit [DecidableEq Details] in
/-- The levels of a directory of the store are directories of the store. -/
theorem mem_levels {s : Spot} (hs : Makeable p w s) (h : path ∈ levels s.path) :
    ∃ s', Makeable p w s' ∧ path = s'.path := by
  have hRoot : Makeable p w .root := Or.inl trivial
  have hLevels : s = .root ∧ levels s.path = [root] ∨ levels s.path = [s.path, root] := by
    rcases hs with hDir | ⟨X, rfl, -⟩
    · cases s with
      | root => exact Or.inl ⟨rfl, rfl⟩
      | dir m => exact Or.inr (by cases m <;> rfl)
      | _ => exact absurd hDir id
    · exact Or.inr rfl
  rcases hLevels with ⟨-, hEq⟩ | hEq
  · rw [hEq, List.mem_singleton] at h
    exact ⟨.root, hRoot, h⟩
  · rw [hEq] at h
    rcases List.mem_cons.mp h with rfl | h
    · exact ⟨s, hs, rfl⟩
    · exact ⟨.root, hRoot, List.mem_singleton.mp h⟩

theorem within_createClaimDir {n : Nat} {s : Spot} (hReady : Ready w p) (hs : Makeable p w s) :
    Within (stages Details p) rounds (createClaimDir n s.path : Code Details _) w
      (fun _ _ => True) := by
  unfold createClaimDir
  refine Within.bind (within_mkdirRecursive n hReady hs) ?_
  intro r u _ hStages hReadyu _
  have hsu := hs.stages hStages.1
  match r with
  | .ok () => exact Within.ret hReadyu fun _ _ _ => trivial
  | .error .ENOENT =>
      refine Within.after (does_missingLevels _ hReadyu) ?_
      intro missing v _ hKeeps hReadyv hMissing
      refine within_createLevels _ hReadyv ?_
      intro path hPath
      exact mem_levels (hsu.stages ((stages Details p).of_keeps hKeeps))
        (hMissing path (List.mem_reverse.mp hPath))
  | .error .EEXIST => exact Within.ret hReadyu fun _ _ _ => trivial
  | .error .ENOTDIR => exact Within.ret hReadyu fun _ _ _ => trivial
  | .error .EISDIR => exact Within.ret hReadyu fun _ _ _ => trivial
  | .error .ENOTEMPTY => exact Within.ret hReadyu fun _ _ _ => trivial
  | .error .EINVAL => exact Within.ret hReadyu fun _ _ _ => trivial

theorem does_refuseNonDirectory (hReady : Ready w p) :
    Does rounds p (refuseNonDirectory path : Code Details (Except ClaimError α)) w
      (fun r _ => ∃ e, r = .error e) := by
  have hBlocking : ∀ (paths : List ClaimPath) {u : World Details}, Ready u p →
      Does rounds p (blockingLevel paths : Code Details _) u (fun _ _ => True) := by
    intro paths
    induction paths with
    | nil => exact fun hReadyu => Does.ret hReadyu fun _ _ _ => trivial
    | cons level rest ih =>
        intro u hReadyu
        unfold blockingLevel
        refine Does.bind (does_stat hReadyu) ?_
        intro r v _ _ hReadyv _
        rcases r with _ | _ | _
        · exact ih hReadyv
        · exact Does.ret hReadyv fun _ _ _ => trivial
        · exact ih hReadyv
  unfold refuseNonDirectory
  refine Does.bind (hBlocking _ hReady) ?_
  intro r u _ _ hReadyu _
  cases r with
  | some level => exact Does.ret hReadyu fun _ _ _ => ⟨_, rfl⟩
  | none => exact Does.ret hReadyu fun _ _ _ => ⟨_, rfl⟩

end Directories

/-! ## Publishing -/

/-- The frame of a whole call: the process's memory stays. -/
def sameMemory (Details : Type) (p : ClaimOwner) : Frame Details p where
  rel := fun w v => v.memory p = w.memory p
  trans := fun h h' => h'.trans h
  of_keeps := fun h => h.memory

/-- A claim of `p` that is in nobody's memory and not marked: `p` may release it. -/
def Loose (p : ClaimOwner) (w : World Details) (X : ClaimId) : Prop :=
  w.issuedTo X = some p ∧ w.marked X = false ∧ ∀ h, (w.memory p).Has h → h.claimId ≠ X

theorem Loose.keeps (h : Loose p w X) (hKeeps : Keeps p w w') : Loose p w' X := by
  obtain ⟨hX, hMarked, hMemory⟩ := h
  exact ⟨hKeeps.issued hX, (hKeeps.marked_own hX).trans hMarked, hKeeps.memory ▸ hMemory⟩

/-- A claim `p` has just published. -/
def Published (p : ClaimOwner) (w : World Details) (m : ClaimMode) (X : ClaimId) : Prop :=
  Loose p w X ∧ w.look (.claim m X) ≠ none

theorem Keeps.look_ne_none (hKeeps : Keeps p w w') (hX : w.issuedTo X = some p)
    (h : w.look (.claim m X) ≠ none) : w'.look (.claim m X) ≠ none := by
  obtain ⟨n, hn⟩ := Option.ne_none_iff_exists'.mp h
  rw [hKeeps.claim_own hX hn]
  exact Option.some_ne_none n

theorem Published.keeps (h : Published p w m X) (hKeeps : Keeps p w w') : Published p w' m X :=
  ⟨h.1.keeps hKeeps, hKeeps.look_ne_none h.1.1 h.2⟩

/-- An id that is not published yet is loose. -/
theorem loose_of_fresh (hInv : Inv w) (hAlive : w.life p = .alive)
    (hX : w.issuedTo X = some p) (hFresh : X ∉ w.published) : Loose p w X := by
  refine ⟨hX, ?_, fun h hHas hEq => ?_⟩
  · by_contra hMarked
    exact hFresh (hInv.marked_published (by simpa using hMarked))
  · exact hFresh (hEq ▸ hInv.mem_published (hInv.handle hAlive hHas).2.2)

/-- A rename that publishes `X`. -/
theorem publish_spec {t : Tree Name (Content Details)} {o : Op Details} (hInv : Inv w)
    (hReady : Ready w p) (hPub : Publishes p w t m X)
    (hWrite : ∀ Y c, o ≠ .writeFile (stagedClaim Y) c)
    (hUnlink : ∀ Y, o ≠ .unlink (stagedClaim Y)) :
    (contract Details).Guar p w ((w.publish t X).note p (some o)) ∧
      Published p ((w.publish t X).note p (some o)) m X := by
  refine ⟨guar_publish hInv hReady hPub (notable_quiet hWrite hUnlink), ?_, ?_⟩
  · have hLoose : Loose p w X := loose_of_fresh hInv hPub.alive hPub.own hPub.fresh
    exact hLoose
  · obtain ⟨s, d, hFile⟩ := hPub.file
    show get t _ ≠ none
    rw [hFile]
    exact Option.some_ne_none _

/-- What is known about the id of a claim that is being staged. -/
def Fresh (p : ClaimOwner) (w : World Details) (X : ClaimId) : Prop :=
  w.issuedTo X = some p ∧ X ∉ w.published

theorem Fresh.stages (h : Fresh p w X) (hStages : Stages p w w') : Fresh p w' X :=
  ⟨hStages.issued h.1, fun hMem => h.2 (hStages.unpublished h.1 hMem)⟩

theorem Fresh.keeps (h : Fresh p w X) (hKeeps : Keeps p w w') : Fresh p w' X :=
  ⟨hKeeps.issued h.1, fun hMem => h.2 (hKeeps.unpublished h.1 hMem)⟩

/-- An operation on the tree leaves the rest of the world alone. -/
theorem applyTree_setTree {x : Except Errno (Tree Name (Content Details))}
    (h : some (applyTree w x) = some (r, w')) : ∃ t, w' = w.setTree t := by
  rcases applyTree_cases h with ⟨t, -, -, rfl⟩ | ⟨e, -, -, rfl⟩
  · exact ⟨t, rfl⟩
  · exact ⟨w'.tree, rfl⟩

/-- Writing the claim into its staging directory arms the process. -/
theorem guar_write_staged {s : String} {d : Details} (hInv : Inv w) (hReady : Ready w p)
    (hFresh : Fresh p w X) (hStaging : ∀ n, w.look (.staging X) = some n → n = .dir)
    (hPerform : some (applyTree w (writeFile w.tree (stagedClaim X)
      (.claim X .exclusive p s d))) = some (r, w')) :
    (contract Details).Guar p w
      (w'.note p (some (.writeFile (stagedClaim X) (.claim X .exclusive p s d)))) := by
  have hNotable : ∀ {v : World Details}, Armed v p X (.claim X .exclusive p s d) →
      Notable p v (.writeFile (stagedClaim X) (.claim X .exclusive p s d)) := by
    intro v hArmed
    refine ⟨fun Y c h => ?_, nofun⟩
    simp only [Op.writeFile.injEq, stagedClaim, List.cons.injEq, Name.staging.injEq,
      true_and, Name.claim.injEq, and_true] at h
    obtain ⟨⟨rfl, -⟩, rfl⟩ := h
    exact hArmed
  rcases applyTree_cases hPerform with ⟨t, hOk, rfl, rfl⟩ | ⟨e, hError, rfl, rfl⟩
  · have hPar := writeFile_parented hInv.parented hOk
    obtain ⟨hParent, -, rfl⟩ := writeFile_ok hOk
    refine guar_act hInv hReady (fun hInv' => ?_) (hNotable ?_)
    · exact shrinks_put_outer (w := w.note p none) (s := .staged X) hInv' hReady.1 trivial
        hPar hFresh.1 (by simp)
    · have hDir : w.look (.staging X) = some .dir :=
        (parentError_eq_none (p := stagingPath X) hParent).resolve_left (by simp [stagingPath])
      refine ⟨hFresh.1, hFresh.2, ⟨s, d, rfl⟩, Or.inr ⟨?_, Or.inl ?_⟩⟩
      · rw [World.look_note, World.look_setTree, get_put, if_neg (by simp [Spot.path,
          stagedClaim, stagingPath])]
        exact hDir
      · simp [get_put, Spot.path]
  · refine guar_act (t := w'.tree) hInv hReady (fun hInv' => shrinks_refl hInv' hReady.1)
      (hNotable ⟨hFresh.1, hFresh.2, ⟨s, d, rfl⟩, Or.inl ?_⟩)
    -- the write failed because the staging directory is gone
    rcases writeFile_error hError with hParent | hDir
    · have hNot := parentError_ne_none (p := stagingPath X) hParent
      show w'.look (.staging X) = none
      by_contra hSome
      obtain ⟨n, hn⟩ := Option.ne_none_iff_exists'.mp hSome
      rw [hStaging n hn] at hn
      exact hNot hn
    · exact absurd rfl (hInv.below_staging (n := .claim X) hDir).2.2

/-- The rename that publishes an exclusive claim. -/
theorem guar_rename_exclusive {c : Content Details} {oracle : Oracle} (hInv : Inv w)
    (hReady : Ready w p) (hLast : w.last p = some (.writeFile (stagedClaim X) c))
    (hPerform : perform oracle p (.rename (stagingPath X) exclusiveClaimDir) w = some (r, w')) :
    (contract Details).Guar p w
        (w'.note p (some (.rename (stagingPath X) exclusiveClaimDir))) ∧
      w'.memory p = w.memory p ∧ w'.life p = .alive ∧ w'.issuedTo X = w.issuedTo X ∧
      (r = .ok () → Published p
        (w'.note p (some (.rename (stagingPath X) exclusiveClaimDir))) .exclusive X) := by
  have hArmed := hInv.armed hReady.1 hLast
  simp only [perform] at hPerform
  split at hPerform
  · rename_i t hOk
    cases hPerform
    have hPar := rename_parented hInv.parented (Spot.path_ne_nil (.staging X)) hOk
    rcases rename_ok hOk with ⟨c', hFile, -, -, rfl⟩ | ⟨hDir, -, -, hEmpty, rfl⟩
    · rcases hArmed.2.2.2 with hNone | ⟨hIs, -⟩
      · exact absurd (hNone.symm.trans hFile) (by simp)
      · exact absurd (hIs.symm.trans hFile) (by simp)
    · have hPub := publishes_exclusive hInv hReady.1 hArmed
        (fun hNone => absurd (hNone.symm.trans hDir) (by simp)) hEmpty hPar
      obtain ⟨hGuar, hPublished⟩ := publish_spec
        (o := .rename (stagingPath X) exclusiveClaimDir) hInv hReady hPub (by simp) (by simp)
      exact ⟨hGuar, rfl, hReady.1, rfl, fun _ => hPublished⟩
  · cases hPerform
    obtain ⟨hGuar, -⟩ := guar_read (o := .rename (stagingPath X) exclusiveClaimDir) hInv
      hReady (by simp) (by simp)
    exact ⟨hGuar, rfl, hReady.1, rfl, by simp⟩

/-- The rename that publishes a shared claim. -/
theorem guar_rename_shared {s : String} {d : Details} {oracle : Oracle} (hInv : Inv w)
    (hReady : Ready w p) (hFresh : Fresh p w X)
    (hStaging : ∀ n, w.look (.staging X) = some n → n = .file (.claim X .shared p s d))
    (hPerform : perform oracle p (.rename (stagingPath X) (claimPath .shared X)) w =
      some (r, w')) :
    (contract Details).Guar p w
        (w'.note p (some (.rename (stagingPath X) (claimPath .shared X)))) ∧
      w'.memory p = w.memory p ∧ w'.life p = .alive ∧ w'.issuedTo X = w.issuedTo X ∧
      (r = .ok () → Published p
        (w'.note p (some (.rename (stagingPath X) (claimPath .shared X)))) .shared X) := by
  simp only [perform] at hPerform
  split at hPerform
  · rename_i t hOk
    cases hPerform
    have hPar := rename_parented hInv.parented (Spot.path_ne_nil (.staging X)) hOk
    rcases rename_ok hOk with ⟨c', hFile, -, -, rfl⟩ | ⟨hDir, -, -, -, rfl⟩
    · cases hStaging _ hFile
      obtain ⟨hGuar, hPublished⟩ := publish_spec
        (o := .rename (stagingPath X) (claimPath .shared X)) hInv hReady
        (publishes_shared hReady.1 hFresh.1 hFresh.2 hPar) (by simp) (by simp)
      exact ⟨hGuar, rfl, hReady.1, rfl, fun _ => hPublished⟩
    · cases hStaging _ hDir
  · cases hPerform
    obtain ⟨hGuar, -⟩ := guar_read (o := .rename (stagingPath X) (claimPath .shared X)) hInv
      hReady (by simp) (by simp)
    exact ⟨hGuar, rfl, hReady.1, rfl, by simp⟩

/-- Writing the staging file of a shared claim. -/
theorem guar_write_staging {c : Content Details} (hInv : Inv w) (hReady : Ready w p)
    (hX : w.issuedTo X = some p)
    (hPerform : some (applyTree w (writeFile w.tree (stagingPath X) c)) = some (r, w')) :
    (contract Details).Guar p w (w'.note p (some (.writeFile (stagingPath X) c))) ∧
      (r = .ok () → ∀ n, w'.look (.staging X) = some n → n = .file c) := by
  have hQuiet : ∀ Y c', Op.writeFile (stagingPath X) c ≠ .writeFile (stagedClaim Y) c' := by
    simp [stagingPath, stagedClaim]
  rcases applyTree_cases hPerform with ⟨t, hOk, rfl, rfl⟩ | ⟨e, hError, rfl, rfl⟩
  · have hPar := writeFile_parented hInv.parented hOk
    obtain ⟨-, -, rfl⟩ := writeFile_ok hOk
    refine ⟨guar_act hInv hReady (fun hInv' => ?_) (notable_quiet hQuiet (by simp)), ?_⟩
    · exact shrinks_put_outer (w := w.note p none) (s := .staging X) hInv' hReady.1 trivial
        hPar hX (by simp)
    · intro _ n hn
      simp only [World.look_setTree, Spot.path, get_put, if_true, Option.some.injEq] at hn
      exact hn.symm
  · obtain ⟨hGuar, -⟩ := guar_read (o := .writeFile (stagingPath X) c) hInv hReady hQuiet
      (by simp)
    exact ⟨hGuar, by simp⟩

section Publish

variable [DecidableEq Details]

theorem Within.prepared {x : Code Details α} {Q : α → World Details → Prop}
    (h : Within (stages Details p) rounds x w Q) :
    Within (sameMemory Details p) rounds x w (fun _ v => Stages p w v) :=
  Safe.mono h fun _ _ _ ⟨⟨hStages, hAges⟩, hReady, _⟩ =>
    ⟨⟨hStages.memory, hAges⟩, hReady, hStages⟩

variable {d : Details} {s : String}

variable {n : Nat}

theorem within_stageExclusive (hReady : Ready w p) (hFresh : Fresh p w X)
    (hStaging : w.look (.staging X) = none) :
    Within (sameMemory Details p) rounds
      (stageExclusive n (.claim X .exclusive p s d) X) w
      (fun r v => v.issuedTo X = some p ∧ (r = .ok () → Published p v .exclusive X)) := by
  unfold stageExclusive
  refine Within.bind (within_createClaimDir (s := .staging X) hReady
    (Or.inr ⟨X, rfl, hFresh.1⟩)).prepared ?_
  intro r u hInvu _ hReadyu hStages
  match r with
  | .error e =>
      exact Within.ret hReadyu fun v _ hKeeps =>
        ⟨hKeeps.issued (hStages.issued hFresh.1), nofun⟩
  | .ok () =>
      have hFreshu := hFresh.stages hStages
      have hStagingu : ∀ n, u.look (.staging X) = some n → n = .dir := by
        intro n hn
        rcases hStages.staging hFresh.1 hn with hOld | hDir
        · rw [hStaging] at hOld
          cases hOld
        · exact hDir
      refine within_op hReadyu ?_
      intro v oracle r x hInvv hRely hReadyv hPerform
      have hKeeps := hRely.toKeeps
      have hGuar := guar_write_staged hInvv hReadyv (hFreshu.keeps hKeeps)
        (fun n hn => hStagingu n (hKeeps.staging_own hFreshu.1 hn)) hPerform
      obtain ⟨t, rfl⟩ := applyTree_setTree hPerform
      have hX : v.issuedTo X = some p := hKeeps.issued hFreshu.1
      refine ⟨hGuar, rfl, ?_⟩
      have hReadyx := ready_note (w := v.setTree t) (p := p)
        (o := .writeFile (stagedClaim X) (.claim X .exclusive p s d)) hReadyv.1 (by simp)
      match r with
      | .error e => exact Within.ret hReadyx fun v _ hKeeps => ⟨hKeeps.issued hX, nofun⟩
      | .ok () =>
          -- between the write and the rename the process is armed
          dsimp only
          rw [← bind_pure (ask (.rename (stagingPath X) exclusiveClaimDir))]
          refine within_op hReadyx ?_
          intro y oracle r z hInvy hRely hReadyy hPerform
          have hLast : y.last p =
              some (.writeFile (stagedClaim X) (.claim X .exclusive p s d)) :=
            hRely.last.trans (by simp [World.note])
          obtain ⟨hGuar, hMemory, hAlive, hIssued, hPublished⟩ :=
            guar_rename_exclusive hInvy hReadyy hLast hPerform
          refine ⟨hGuar, hMemory, Within.ret (ready_note hAlive (by simp)) ?_⟩
          intro b _ hKeeps
          exact ⟨hKeeps.issued (hIssued.trans (hRely.issued hX)),
            fun hr => (hPublished hr).keeps hKeeps⟩

theorem within_publishExclusive (hReady : Ready w p) (hFresh : Fresh p w X)
    (hStaging : w.look (.staging X) = none) :
    Within (sameMemory Details p) rounds
      (publishExclusive n (.claim X .exclusive p s d) X) w
      (fun r v => ∀ path, r = .ok (some path) →
        path = claimPath .exclusive X ∧ Published p v .exclusive X) := by
  unfold publishExclusive
  refine Within.bind (within_stageExclusive hReady hFresh hStaging) ?_
  rintro r u hInvu - hReadyu ⟨hX, hPublished⟩
  match r with
  | .ok () =>
      refine Within.ret hReadyu fun v _ hKeeps path hPath => ?_
      cases hPath
      exact ⟨rfl, (hPublished rfl).keeps hKeeps⟩
  | .error e =>
      refine Within.after (does_rmRecursive_staging hReadyu (Or.inl hX)) ?_
      intro r v _ _ hReadyv _
      match r with
      | .error e' => exact Within.ret hReadyv fun _ _ _ _ h => by cases h
      | .ok () =>
          dsimp only
          split
          · exact Within.ret hReadyv fun _ _ _ _ h => by cases h
          · split
            · refine Safe.mono (Does.within (F := sameMemory Details p) (does_refuseNonDirectory hReadyv)) ?_
              rintro r x - ⟨hMemory, hReadyx, -, e', rfl⟩
              exact ⟨hMemory, hReadyx, nofun⟩
            · exact Within.ret hReadyv fun _ _ _ _ h => by cases h

theorem within_stageShared (hReady : Ready w p) (hFresh : Fresh p w X) :
    Within (sameMemory Details p) rounds (stageShared n (.claim X .shared p s d) X) w
      (fun r v => r = .ok () → Published p v .shared X) := by
  unfold stageShared
  refine Within.bind (within_createClaimDir (s := .dir .shared) hReady
    (Or.inl trivial)).prepared ?_
  intro r u hInvu _ hReadyu hStages
  match r with
  | .error e => exact Within.ret hReadyu fun _ _ _ => nofun
  | .ok () =>
      have hFreshu := hFresh.stages hStages
      refine within_op hReadyu ?_
      intro v oracle r x hInvv hRely hReadyv hPerform
      have hFreshv := hFreshu.keeps hRely.toKeeps
      obtain ⟨hGuar, hFile⟩ := guar_write_staging hInvv hReadyv hFreshv.1 hPerform
      obtain ⟨t, rfl⟩ := applyTree_setTree hPerform
      refine ⟨hGuar, rfl, ?_⟩
      have hReadyx := ready_note (w := v.setTree t) (p := p)
        (o := .writeFile (stagingPath X) (.claim X .shared p s d)) hReadyv.1 (by simp)
      match r, hFile with
      | .error e, _ => exact Within.ret hReadyx fun _ _ _ => nofun
      | .ok (), hFile =>
          dsimp only
          rw [← bind_pure (ask (.rename (stagingPath X) (claimPath .shared X)))]
          refine within_op hReadyx ?_
          intro y oracle r z hInvy hRely hReadyy hPerform
          have hFreshy : Fresh p y X := Fresh.keeps (w := (v.setTree t).note p
            (some (.writeFile (stagingPath X) (.claim X .shared p s d)))) hFreshv hRely.toKeeps
          obtain ⟨hGuar, hMemory, hAlive, -, hPublished⟩ :=
            guar_rename_shared hInvy hReadyy hFreshy
              (fun n hn => hFile rfl n (hRely.staging_own hFreshv.1 hn)) hPerform
          refine ⟨hGuar, hMemory, Within.ret (ready_note hAlive (by simp)) ?_⟩
          exact fun b _ hKeeps hr => (hPublished hr).keeps hKeeps

theorem within_publishShared (hReady : Ready w p) (hFresh : Fresh p w X) :
    Within (sameMemory Details p) rounds (publishShared n (.claim X .shared p s d) X) w
      (fun r v => ∀ path, r = .ok (some path) →
        path = claimPath .shared X ∧ Published p v .shared X) := by
  unfold publishShared
  refine Within.bind (within_stageShared hReady hFresh) ?_
  intro r u hInvu _ hReadyu hPublished
  match r with
  | .ok () =>
      refine Within.ret hReadyu fun v _ hKeeps path hPath => ?_
      cases hPath
      exact ⟨rfl, (hPublished rfl).keeps hKeeps⟩
  | .error e =>
      refine Within.after (does_rmFile (s := .staging X) hReadyu trivial (by simp)) ?_
      intro r v _ _ hReadyv _
      match r with
      | .error e' => exact Within.ret hReadyv fun _ _ _ _ h => by cases h
      | .ok () =>
          dsimp only
          split
          · exact Within.ret hReadyv fun _ _ _ _ h => by cases h
          · exact Within.ret hReadyv fun _ _ _ _ h => by cases h

end Publish

end Stim.OwnershipClaim
