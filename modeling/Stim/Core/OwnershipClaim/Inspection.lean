import Stim.Core.OwnershipClaim.Reading

/-!
# Inspecting a claim set

The specification of `inspectClaimSet`.  An inspection that answers no live claim
of a mode has seen every claim published before it began: none of those is held
any more (`Clear`).  All it removes is what nothing holds.
-/

namespace Stim.OwnershipClaim

open Interleaving FileTree

variable {Details : Type} {rounds : Nat} {p : ClaimOwner} {w w' : World Details}
  {X Y : ClaimId} {m : ClaimMode} {α β : Type}

/-! ## What a survey says -/

/-- What a survey says truly, and goes on to say truly. -/
structure Surveyed (u : World Details) (state : ClaimSurvey Details) : Prop where
  dead : ∀ h ∈ state.dead, h.path = claimPath h.mode h.claimId ∧ Buried u h
  orphans : state.orphans = []

/-- The survey has the claim `Y`, which was published before `w`, unless nothing holds it. -/
def Covers (w u : World Details) (state : ClaimSurvey Details) (m : ClaimMode)
    (Y : ClaimId) : Prop :=
  Y ∈ w.published → Held u m Y →
    (∃ h ∈ state.live, h.mode = m ∧ h.claimId = Y) ∨ state.unresolved ≠ []

/-- A later survey state: nothing it has found is lost. -/
structure Extends (state state' : ClaimSurvey Details) : Prop where
  live : ∀ h ∈ state.live, h ∈ state'.live
  unresolved : state.unresolved ≠ [] → state'.unresolved ≠ []

theorem Extends.refl (state : ClaimSurvey Details) : Extends state state := ⟨fun _ h => h, id⟩

theorem Extends.trans {a b c : ClaimSurvey Details} (h : Extends a b) (h' : Extends b c) :
    Extends a c :=
  ⟨fun x hx => h'.live x (h.live x hx), fun hx => h'.unresolved (h.unresolved hx)⟩

theorem extends_problem (state : ClaimSurvey Details) (path : ClaimPath) (reason : String) :
    Extends state (state.problem path reason) :=
  ⟨fun _ h => h, fun _ => by simp [ClaimSurvey.problem]⟩

theorem unresolved_problem (state : ClaimSurvey Details) (path : ClaimPath) (reason : String) :
    (state.problem path reason).unresolved ≠ [] := by
  simp [ClaimSurvey.problem]

variable {state : ClaimSurvey Details}

theorem Surveyed.keeps (hKeeps : Keeps p w w') (h : Surveyed w state) : Surveyed w' state where
  dead := by
    intro x hx
    obtain ⟨hPath, hBuried⟩ := h.dead x hx
    exact ⟨hPath, hBuried.ages hKeeps.toAges⟩
  orphans := h.orphans

variable {u : World Details}

theorem Covers.mono {state state' : ClaimSurvey Details} (h : Covers w u state m Y)
    (hExtends : Extends state state') : Covers w u state' m Y := by
  intro hY hHeld
  rcases h hY hHeld with ⟨x, hx, hxm⟩ | hProblem
  · exact Or.inl ⟨x, hExtends.live x hx, hxm⟩
  · exact Or.inr (hExtends.unresolved hProblem)

/-- A claim covered at one moment is covered at every later one. -/
theorem Covers.keeps {v u : World Details} (hBefore : Keeps p w v) (hKeeps : Keeps p v u)
    (h : Covers w v state m Y) : Covers w u state m Y :=
  fun hY hHeld => h hY (hKeeps.held (hBefore.mem_published hY) hHeld)

theorem Covers.older {v u : World Details} (hKeeps : Keeps p w v) (h : Covers v u state m Y) :
    Covers w u state m Y :=
  fun hY => h (hKeeps.mem_published hY)

/-- What the survey of some names of one mode adds. -/
structure Adds (w v : World Details) (m : ClaimMode) (listed : ClaimId → Prop)
    (state state' : ClaimSurvey Details) : Prop where
  surveyed : Surveyed v state'
  extends_ : Extends state state'
  covers : ∀ Y, listed Y → Covers w v state' m Y

/-- Nothing is an orphan: a child record lies beside its claim. -/
theorem filter_isOrphan {listed : List Name} (hInv : Inv u)
    (hListed : ∀ n, n ∈ listed ↔ get u.tree (claimDir m ++ [n]) ≠ none) :
    listed.filter (Name.isOrphan listed) = [] := by
  rw [List.filter_eq_nil_iff]
  intro n hn
  cases n with
  | child Y =>
      have hClaim : Name.claim Y ∈ listed := by
        rw [hListed]
        intro hNone
        exact (hListed _).mp hn (hInv.child_claim (m := m) (X := Y) hNone)
      simp [Name.isOrphan, hClaim]
  | _ => simp [Name.isOrphan]

/-- No claim file lies in a root that is no directory. -/
theorem not_held_of_root (hInv : Inv u) (h : get u.tree root ≠ some .dir) : ¬ Held u m Y := by
  rintro ⟨hFile, -⟩
  obtain ⟨n, hn⟩ := Option.ne_none_iff_exists'.mp hFile
  have hDir : get u.tree (claimDir m) = some .dir :=
    (hInv.parented (claimDir m) (.claim Y) n hn).resolve_left (claimDir_ne_nil m)
  have hRoot : get u.tree root = some .dir := by
    cases m with
    | exclusive => exact (hInv.parented root .exclusive .dir hDir).resolve_left (by simp [root])
    | shared => exact (hInv.parented root .shared .dir hDir).resolve_left (by simp [root])
  exact h hRoot

/-- A removed child record of a claim that nothing holds does not come back. -/
theorem child_none_of_keeps (hInv : Inv w) (hInv' : Inv w') (hKeeps : Keeps p w w')
    (hX : X ∈ w.published) (hNot : ¬ Held w m X) (h : w.look (.child m X) = none) :
    w'.look (.child m X) = none := by
  by_contra hSome
  obtain ⟨n, hn⟩ := Option.ne_none_iff_exists'.mp hSome
  have hOwner : ¬ OwnerAlive w X := by
    intro hAlive
    refine hNot ⟨?_, Or.inl hAlive⟩
    intro hNone
    exact hSome (hInv'.child_claim (hKeeps.look_none hX hNone))
  obtain ⟨o, ho, hDead⟩ := hInv.owner_dead hX hOwner
  rw [hKeeps.child_dead ho hDead hn] at h
  cases h

/-- None of the claims of mode `m` published before `w` is held in `u`. -/
def Clear (w u : World Details) (m : ClaimMode) : Prop :=
  ∀ Y ∈ w.published, ¬ Held u m Y

variable [DecidableEq Details]

/-! ## Surveys -/

variable {Q : β → World Details → Prop}

/-- A directory's names are exactly what lies below it at the moment of the listing. -/
theorem does_names {dir : ClaimPath} {k : Option (List Name) → Code Details β}
    (hReady : Ready w p) (hDir : dir ≠ []) (h : ∀ u listed, Inv u → Keeps p w u → Ready u p →
      (∀ l, listed = some l → ∀ n, n ∈ l ↔ get u.tree (dir ++ [n]) ≠ none) →
      Does rounds p (k listed) u Q) : Does rounds p (names dir >>= k) w Q := by
  have hEmpty : ∀ {u : World Details}, Inv u → get u.tree dir ≠ some .dir →
      ∀ l, some ([] : List Name) = some l → ∀ n, n ∈ l ↔ get u.tree (dir ++ [n]) ≠ none := by
    rintro u hInv hNot l ⟨⟩ n
    simp [hInv.parented.below hDir hNot n]
  unfold names
  rw [bind_assoc]
  refine does_lstat hReady ?_
  intro u hInv hKeeps hReady'
  cases hStat : get u.tree dir with
  | none => exact h u _ hInv hKeeps hReady' (hEmpty hInv (by simp [hStat]))
  | some node =>
      cases node with
      | file c => exact h u _ hInv hKeeps hReady' (fun l hl => by cases hl)
      | dir =>
          simp only [bind_assoc]
          refine does_readdir hReady' ?_
          intro v hInv' hKeeps' hReady''
          have hKeeps'' := hKeeps.trans hKeeps'
          cases hList : readdir v.tree dir with
          | ok listed =>
              refine h v _ hInv' hKeeps'' hReady'' ?_
              rintro l ⟨⟩ n
              rw [List.mem_insertionSort, mem_readdir hList]
          | error e =>
              cases e with
              | ENOENT =>
                  have hNone := readdir_error_ENOENT.mp hList
                  exact h v _ hInv' hKeeps'' hReady'' (hEmpty hInv' (by simp [hNone]))
              | _ => exact h v _ hInv' hKeeps'' hReady'' (fun l hl => by cases hl)

theorem does_surveyClaims (listed : List Name) (state : ClaimSurvey Details) (hInv : Inv w)
    (hReady : Ready w p) (hState : Surveyed w state) :
    Does rounds p (surveyClaims (claimDir m) m listed state) w
      (fun state' v => Adds w v m (fun Y => Name.claim Y ∈ listed) state state') := by
  induction listed generalizing w state with
  | nil =>
      refine Does.ret hReady fun v hInv' hKeeps => ⟨hState.keeps hKeeps, .refl _, ?_⟩
      intro Y hY
      cases hY
  | cons name rest ih =>
      -- `hHead` covers the first name; the rest is the induction hypothesis.
      have hNext : ∀ {u : World Details} {state' : ClaimSurvey Details}, Inv u →
          Keeps p w u → Ready u p → Surveyed u state' → Extends state state' →
          (∀ Y, name = .claim Y → Covers w u state' m Y) →
          Does rounds p (surveyClaims (claimDir m) m rest state') u
            (fun state'' v => Adds w v m (fun Y => Name.claim Y ∈ name :: rest)
              state state'') := by
        intro u state' hInvu hKeeps hReadyu hSurveyed hExtends hHead
        refine Safe.mono (ih state' hInvu hReadyu hSurveyed) ?_
        rintro state'' v hInvv ⟨hKeepsv, hReadyv, hAdds⟩
        refine ⟨hKeepsv, hReadyv, hAdds.surveyed, hExtends.trans hAdds.extends_, ?_⟩
        intro Y hY
        rcases List.mem_cons.mp hY with hY | hY
        · exact ((hHead Y hY.symm).keeps hKeeps hKeepsv).mono hAdds.extends_
        · exact (hAdds.covers Y hY).older hKeeps
      unfold surveyClaims
      cases name with
      | claim X =>
          simp only [Name.isClaim, if_true]
          refine does_readClaim hReady ?_ ?_ ?_
          · intro u hInvu hKeeps hReadyu hGone
            refine hNext hInvu hKeeps hReadyu (hState.keeps hKeeps) (.refl _) ?_
            rintro Y ⟨⟩ hY hHeld
            exact absurd (hGone hY) hHeld.1
          · intro u reason hInvu hKeeps hReadyu
            refine hNext hInvu hKeeps hReadyu ?_ (extends_problem ..) ?_
            · exact { hState.keeps hKeeps with }
            · rintro Y ⟨⟩ - -
              exact Or.inr (unresolved_problem _ _ _)
          · intro u holder hInvu hKeeps hReadyu hHolder
            refine does_claimLiveness hReadyu hHolder ?_
            intro v liveness hInvv hKeepsv hReadyv hDead
            have hKeepsAll := hKeeps.trans hKeepsv
            have hStatev := hState.keeps hKeepsAll
            cases liveness with
            | live =>
                refine hNext hInvv hKeepsAll hReadyv { hStatev with }
                  ⟨fun x hx => by simp [hx], fun h => h⟩ ?_
                rintro Y ⟨⟩ - -
                exact Or.inl ⟨holder, by simp, hHolder.mode, hHolder.claimId⟩
            | dead =>
                refine hNext hInvv hKeepsAll hReadyv ⟨?_, hStatev.orphans⟩
                  ⟨fun x hx => hx, fun h => h⟩ ?_
                · intro x hx
                  rcases List.mem_append.mp hx with hx | hx
                  · exact hStatev.dead x hx
                  · have hHolderv := hHolder.keeps hKeepsv
                    rw [List.mem_singleton.mp hx]
                    unfold Buried
                    rw [hHolder.path, hHolder.mode, hHolder.claimId]
                    exact ⟨rfl, hHolderv.published, hDead rfl, hHolderv.sole⟩
                · rintro Y ⟨⟩ - hHeld
                  exact absurd hHeld (hDead rfl)
            | unknown =>
                refine hNext hInvv hKeepsAll hReadyv { hStatev with } (extends_problem ..) ?_
                rintro Y ⟨⟩ - -
                exact Or.inr (unresolved_problem _ _ _)
      | _ =>
          simp only [Name.isClaim, Bool.false_eq_true, if_false]
          exact hNext hInv (Keeps.refl hReady.1) hReady hState (.refl _) (fun Y h => by cases h)

theorem does_survey (state : ClaimSurvey Details) (hReady : Ready w p) (hState : Surveyed w state) :
    Does rounds p (survey (claimDir m) m state) w
      (fun state' v => Adds w v m (fun _ => True) state state') := by
  unfold survey
  refine does_names hReady (claimDir_ne_nil m) ?_
  intro u listed hInvu hKeeps hReadyu hListed
  have hStateu := hState.keeps hKeeps
  cases listed with
  | none =>
      refine Does.ret hReadyu fun v _ hKeepsv => ⟨?_, extends_problem .., ?_⟩
      · exact { hStateu.keeps hKeepsv with }
      · exact fun Y _ _ _ => Or.inr (unresolved_problem _ _ _)
  | some listed =>
      have hListed := hListed listed rfl
      simp only [filter_isOrphan hInvu hListed, List.map_nil, List.append_nil]
      refine Does.bind (does_surveyClaims listed state hInvu hReadyu hStateu) ?_
      intro state' v hInvv hKeepsv hReadyv hAdds
      -- a claim still held was in the listing
      have hAll : ∀ Y, Covers w v state' m Y := by
        intro Y hY hHeld
        have hBefore := hKeepsv.held (hKeeps.mem_published hY) hHeld
        have hIn : Name.claim Y ∈ listed := (hListed _).mpr hBefore.1
        exact (hAdds.covers Y hIn).older hKeeps hY hHeld
      split
      · refine Does.ret hReadyv fun x _ hKeepsx => ⟨?_, ?_, ?_⟩
        · exact { hAdds.surveyed.keeps hKeepsx with }
        · exact hAdds.extends_.trans (extends_problem ..)
        · exact fun Y _ _ _ => Or.inr (unresolved_problem _ _ _)
      · refine Does.ret hReadyv fun x _ hKeepsx => ⟨?_, hAdds.extends_, ?_⟩
        · exact hAdds.surveyed.keeps hKeepsx
        · exact fun Y _ => (hAll Y).keeps (hKeeps.trans hKeepsv) hKeepsx

theorem does_readClaimSet (hReady : Ready w p) :
    Does rounds p (readClaimSet : Code Details _) w
      (fun state v => Surveyed v state ∧ ∀ m Y, Covers w v state m Y) := by
  have hNil : ∀ {u : World Details}, Surveyed u ⟨[], [], [], []⟩ :=
    ⟨(by simp), rfl⟩
  unfold readClaimSet
  refine does_lstat hReady ?_
  intro u hInvu hKeeps hReadyu
  cases hStat : get u.tree root with
  | none =>
      refine Does.ret hReadyu fun v _ hKeepsv => ⟨hNil, fun m Y hY hHeld => ?_⟩
      have hBefore := hKeepsv.held (hKeeps.mem_published hY) hHeld
      exact absurd hBefore (not_held_of_root hInvu (by simp [hStat]))
  | some node =>
      cases node with
      | file c =>
          exact Does.ret hReadyu fun v _ _ =>
            ⟨⟨(by simp), rfl⟩, fun m Y _ _ => Or.inr (by simp)⟩
      | dir =>
          refine Does.bind (does_survey (m := .exclusive) _ hReadyu hNil) ?_
          intro state v hInvv hKeepsv hReadyv hAdds
          refine Safe.mono (does_survey (m := .shared) state hReadyv hAdds.surveyed) ?_
          rintro state' x - ⟨hKeepsx, hReadyx, hAdds'⟩
          refine ⟨hKeepsx, hReadyx, hAdds'.surveyed, fun m Y => ?_⟩
          have hKeepsAll := hKeeps.trans hKeepsv
          cases m with
          | exclusive =>
              have hCovers := (hAdds.covers Y trivial).older hKeeps
              exact (hCovers.keeps hKeepsAll hKeepsx).mono hAdds'.extends_
          | shared => exact (hAdds'.covers Y trivial).older hKeepsAll

/-! ## Removing what nothing holds -/

/-- A removal that spares the process's own claims. -/
theorem does_unlink {s : Spot} {k : Except Errno Unit → Code Details β} (hReady : Ready w p)
    (hs : ∀ X, s ≠ .staged X)
    (hShrinks : ∀ v, Inv v → Keeps p w v → Parented (erase v.tree s.path) →
      (Inv (v.note p none) → Shrinks p (v.note p none) (erase v.tree s.path)) ∧
        Spares p v (erase v.tree s.path)) (h : ∀ u r, Inv u → Keeps p w u → Ready u p →
      (r = .ok () ∨ r = .error .ENOENT → u.look s = none) → Does rounds p (k r) u Q) :
    Does rounds p (ask (.unlink s.path) >>= k) w Q := by
  have hQuiet : ∀ X, (.unlink s.path : Op Details) ≠ .unlink (stagedClaim X) := by
    intro X hEq
    exact hs X (Spot.path_inj.mp (Op.unlink.inj hEq))
  refine does_op hReady ?_
  intro v oracle r u hInv hKeeps hReady' hPerform
  rcases applyTree_cases hPerform with ⟨t, hOk, hr, rfl⟩ | ⟨e, hError, hr, rfl⟩
  · have hPar := unlink_parented hInv.parented s.path_ne_nil hOk
    obtain ⟨-, rfl⟩ := unlink_ok hOk
    obtain ⟨hShrinks', hSpares⟩ := hShrinks v hInv hKeeps hPar
    have hGuar := guar_act (o := .unlink s.path) hInv hReady' hShrinks'
      (notable_quiet (by simp) hQuiet)
    have hKeeps' := keeps_of_spares (o := .unlink s.path) look_of_erase look_of_erase
      hSpares hReady'.1
    refine ⟨hGuar, hKeeps', h _ r hGuar.inv (hKeeps.trans hKeeps')
      (ready_note hReady'.1 hQuiet) fun _ => ?_⟩
    simp [get_erase]
  · obtain ⟨hGuar, hKeeps'⟩ := guar_read (o := .unlink s.path) hInv hReady' (by simp) hQuiet
    refine ⟨hGuar, hKeeps', h _ r hGuar.inv (hKeeps.trans hKeeps')
      (ready_note hReady'.1 hQuiet) ?_⟩
    rw [hr]
    rintro (hEq | hEq)
    · cases hEq
    · cases hEq
      exact unlink_error_ENOENT.mp hError

/-- Remove a file of a claim that nothing holds. -/
theorem does_removeOrRefuse {s : Spot} {path : ClaimPath}
    {k : Except ClaimError Unit → Code Details β} (hInv : Inv w) (hReady : Ready w p)
    (hs : s = .child m X ∨ s = .claim m X ∧ w.look (.child m X) = none) (hX : X ∈ w.published)
    (hNot : ¬ Held w m X)
    (h : ∀ u r, Inv u → Keeps p w u → Ready u p → (r = .ok () → u.look s = none) →
      Does rounds p (k r) u Q) : Does rounds p (removeOrRefuse s.path path >>= k) w Q := by
  unfold removeOrRefuse
  rw [bind_assoc]
  refine does_unlink hReady ?_ ?_ ?_
  · rintro Y rfl
    simp at hs
  · intro v hInvv hKeeps hPar
    have hNotv := not_held_of_keeps hKeeps hX hNot
    have hsv : s = .child m X ∨ s = .claim m X ∧ Bare p v m X :=
      hs.imp_right fun ⟨hEq, hNone⟩ =>
        ⟨hEq, child_none_of_keeps hInv hInvv hKeeps hX hNot hNone, Or.inr hNotv⟩
    refine ⟨fun hInv' => ?_, ?_⟩
    · exact shrinks_erase_claim (w := v.note p none) hInv' hKeeps.alive hsv hPar
        (Or.inr ⟨hKeeps.mem_published hX, hNotv⟩)
    · exact spares_erase hInvv hKeeps.alive (hsv.symm.imp_left And.left) (Or.inr hNotv)
  · intro u r hInvu hKeeps hReadyu hGone
    match r, hGone with
    | .ok (), hGone => exact h u _ hInvu hKeeps hReadyu fun _ => hGone (Or.inl rfl)
    | .error .ENOENT, hGone => exact h u _ hInvu hKeeps hReadyu fun _ => hGone (Or.inr rfl)
    | .error .EEXIST, _ => exact h u _ hInvu hKeeps hReadyu nofun
    | .error .ENOTDIR, _ => exact h u _ hInvu hKeeps hReadyu nofun
    | .error .EISDIR, _ => exact h u _ hInvu hKeeps hReadyu nofun
    | .error .ENOTEMPTY, _ => exact h u _ hInvu hKeeps hReadyu nofun
    | .error .EINVAL, _ => exact h u _ hInvu hKeeps hReadyu nofun

theorem does_reap {holder : ClaimHolder Details} (hReady : Ready w p)
    (hPath : holder.path = claimPath holder.mode holder.claimId)
    (hX : holder.claimId ∈ w.published) (hNot : ¬ Held w holder.mode holder.claimId) :
    Does rounds p (reap holder) w (fun _ _ => True) := by
  unfold reap
  rw [hPath, childPath_claim]
  refine does_readClaim hReady ?_ ?_ ?_
  · exact fun u _ _ hReadyu _ => Does.ret hReadyu fun _ _ _ => trivial
  · exact fun u _ _ _ hReadyu => Does.ret hReadyu fun _ _ _ => trivial
  · intro u again hInvu hKeeps hReadyu _
    have hXu := hKeeps.mem_published hX
    have hNotu := not_held_of_keeps hKeeps hX hNot
    dsimp only
    split
    · exact Does.ret hReadyu fun _ _ _ => trivial
    · refine does_removeOrRefuse hInvu hReadyu (Or.inl rfl) hXu hNotu ?_
      intro v r hInvv hKeepsv hReadyv hGone
      have hXv := hKeepsv.mem_published hXu
      have hNotv := not_held_of_keeps hKeepsv hXu hNotu
      cases r with
      | error e => exact Does.ret hReadyv fun _ _ _ => trivial
      | ok _ =>
          refine does_removeOrRefuse (s := .claim holder.mode holder.claimId) hInvv hReadyv
            (Or.inr ⟨rfl, hGone rfl⟩) hXv hNotv ?_
          intro x r' _ _ hReadyx _
          cases r' with
          | error e => exact Does.ret hReadyx fun _ _ _ => trivial
          | ok _ => exact Does.ret hReadyx fun _ _ _ => trivial

theorem does_reapAll (dead reaped : List (ClaimHolder Details)) (hInv : Inv w)
    (hReady : Ready w p) (hDead : ∀ h ∈ dead, h.path = claimPath h.mode h.claimId ∧ Buried w h)
    (hReaped : ∀ h ∈ reaped, Buried w h) :
    Does rounds p (reapAll dead reaped) w
      (fun r v => ∀ all, r = .ok all → ∀ h ∈ all, Buried v h) := by
  induction dead generalizing w reaped with
  | nil =>
      refine Does.ret hReady fun v _ hKeeps all hAll h hMem => ?_
      cases hAll
      exact (hReaped h hMem).ages hKeeps.toAges
  | cons holder rest ih =>
      unfold reapAll
      obtain ⟨hPath, hBuried⟩ := hDead holder (List.mem_cons_self ..)
      refine Does.bind (does_reap hReady hPath hBuried.1 hBuried.2.1) ?_
      intro r u hInvu hKeeps hReadyu _
      have hRest : ∀ h ∈ rest, h.path = claimPath h.mode h.claimId ∧ Buried u h := by
        intro h hMem
        obtain ⟨hPath', hBuried'⟩ := hDead h (List.mem_cons_of_mem _ hMem)
        exact ⟨hPath', hBuried'.ages hKeeps.toAges⟩
      have hReapedu : ∀ h ∈ reaped, Buried u h := fun h hMem =>
        (hReaped h hMem).ages hKeeps.toAges
      cases r with
      | error e => exact Does.ret hReadyu fun _ _ _ => (by simp)
      | ok gone =>
          cases gone with
          | false => exact ih _ hInvu hReadyu hRest hReapedu
          | true =>
              refine ih _ hInvu hReadyu hRest fun h hMem => ?_
              rcases List.mem_append.mp hMem with hMem | hMem
              · exact hReapedu h hMem
              · rw [List.mem_singleton.mp hMem]
                exact hBuried.ages hKeeps.toAges

/-- Removing an empty directory of the store. -/
theorem does_tidy {s : Spot} (hReady : Ready w p) (hs : s.isDir) :
    Does rounds p (tidy s.path : Code Details _) w (fun _ _ => True) := by
  have hReady' : ∀ {v : World Details}, v.life p = .alive →
      Ready (v.note p (some (.rmdir s.path))) p := fun hAlive => ready_note hAlive (by simp)
  unfold tidy
  refine does_op hReady ?_
  intro v oracle r u hInv hKeeps hReadyv hPerform
  rcases applyTree_cases hPerform with ⟨t, hOk, -, rfl⟩ | ⟨e, -, -, rfl⟩
  · have hPar := rmdir_parented hInv.parented hOk
    obtain ⟨-, -, rfl⟩ := rmdir_ok hOk
    have hShrinks : Inv (v.note p none) → Shrinks p (v.note p none) (erase v.tree s.path) :=
      fun hInv' => shrinks_erase_outer (w := v.note p none) hInv' hReadyv.1 hs.isOuter hPar
        (fun X h => by subst h; exact absurd hs id)
    have hGuar := guar_act (o := .rmdir s.path) hInv hReadyv hShrinks
      (notable_quiet (by simp) (by simp))
    exact ⟨hGuar, keeps_erase_outer hs.isOuter hReadyv.1,
      Does.ret (hReady' hReadyv.1) fun _ _ _ => trivial⟩
  · obtain ⟨hGuar, hKeeps'⟩ :=
      guar_read (o := .rmdir s.path) hInv hReadyv (by simp) (by simp)
    exact ⟨hGuar, hKeeps', Does.ret (hReady' hReadyv.1) fun _ _ _ => trivial⟩

theorem does_tidyUnlessLive {live : List (ClaimHolder Details)} (hReady : Ready w p) :
    Does rounds p (tidyUnlessLive m live) w (fun _ _ => True) := by
  unfold tidyUnlessLive
  split
  · exact Does.ret hReady fun _ _ _ => trivial
  · exact does_tidy (s := .dir m) hReady trivial

theorem does_inspectClaimSet (hReady : Ready w p) :
    Does rounds p (inspectClaimSet : Code Details _) w
      (fun r v => ∀ state, r = .ok state →
        (state.exclusive = none → Clear w v .exclusive) ∧
          (state.shared = [] → Clear w v .shared) ∧ ∀ h ∈ state.reaped, Buried v h) := by
  unfold inspectClaimSet
  refine Does.bind (does_readClaimSet hReady) ?_
  rintro state u hInvu hKeeps hReadyu ⟨hSurveyed, hCovers⟩
  cases hUnresolved : state.unresolved with
  | cons problem _ => exact Does.ret hReadyu fun _ _ _ => (by simp)
  | nil =>
      simp only [hSurveyed.orphans, removeOrphans, pure_bind]
      refine Does.bind (does_reapAll state.dead [] hInvu hReadyu hSurveyed.dead (by simp)) ?_
      intro r v hInvv hKeepsv hReadyv hReaped
      cases r with
      | error e => exact Does.ret hReadyv fun _ _ _ => (by simp)
      | ok reaped =>
          refine Does.bind (does_tidyUnlessLive hReadyv) ?_
          intro _ x hInvx hKeepsx hReadyx _
          refine Does.bind (does_tidyUnlessLive hReadyx) ?_
          intro _ y hInvy hKeepsy hReadyy _
          refine Does.ret hReadyy fun z _ hKeepsz => ?_
          rintro _ ⟨⟩
          have hLive : ∀ {m Y}, Y ∈ w.published → Held z m Y →
              ∃ h ∈ state.live, h.mode = m := by
            intro m Y hY hHeld
            have hAll := ((hKeepsv.trans hKeepsx).trans hKeepsy).trans hKeepsz
            rcases (hCovers m Y).keeps hKeeps hAll hY hHeld with ⟨h, hMem, hm, -⟩ | hBad
            · exact ⟨h, hMem, hm⟩
            · exact absurd hUnresolved hBad
          refine ⟨fun hNone Y hY hHeld => ?_, fun hNil Y hY hHeld => ?_, fun h hMem => ?_⟩
          · obtain ⟨h, hMem, hMode⟩ := hLive hY hHeld
            simpa [hMode] using List.find?_eq_none.mp hNone h hMem
          · obtain ⟨h, hMem, hMode⟩ := hLive hY hHeld
            simpa [hMode] using List.filter_eq_nil_iff.mp hNil h hMem
          · exact (hReaped reaped rfl h hMem).ages
              ((hKeepsx.trans hKeepsy).trans hKeepsz).toAges

end Stim.OwnershipClaim
