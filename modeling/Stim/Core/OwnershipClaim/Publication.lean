import Stim.Core.OwnershipClaim.Steps

/-!
# Renames into place

The three renames that put something into a claim set: a staged directory onto
`exclusive`, a staged file into `shared`, and a staged child record beside its
claim.
-/

namespace Stim.OwnershipClaim

open Interleaving FileTree

variable {Details : Type} {p q : ClaimOwner} {w w' : World Details} {X Y : ClaimId}
  {m : ClaimMode}

/-! ## Publication -/

/-- The world after the claim `X` came into place. -/
def World.publish (w : World Details) (t : Tree Name (Content Details)) (X : ClaimId) :
    World Details :=
  { w with tree := t, published := w.published ++ [X] }

/-- A tree in which `p` has just published the claim `X`. -/
structure Publishes (p : ClaimOwner) (w : World Details) (t : Tree Name (Content Details))
    (m : ClaimMode) (X : ClaimId) : Prop where
  alive : w.life p = .alive
  parented : Parented t
  own : w.issuedTo X = some p
  fresh : X ∉ w.published
  file : ∃ s d, get t (Spot.claim m X).path = some (.file (.claim X m p s d))
  claim : ∀ {m' Y}, ¬ (m' = m ∧ Y = X) → get t (Spot.claim m' Y).path = w.look (.claim m' Y)
  child : ∀ {m' Y}, get t (Spot.child m' Y).path = w.look (.child m' Y)
  alone : m = .exclusive → ∀ Y, w.look (.claim .exclusive Y) = none
  staging : ∀ {Y n}, get t (Spot.staging Y).path = some n → w.look (.staging Y) = some n
  below : ∀ {Y n rest node}, get t (stagingPath Y ++ n :: rest) = some node →
    get w.tree (stagingPath Y ++ n :: rest) = some node
  staged : ∀ {Y}, Y ≠ X → get t (Spot.staged Y).path = w.look (.staged Y)
  stagingChild : ∀ {Y}, get t (Spot.stagingChild Y).path = w.look (.stagingChild Y)

section Publish

variable {t : Tree Name (Content Details)}

theorem Inv.look_fresh (hInv : Inv w) (hX : X ∉ w.published) : w.look (.claim m X) = none := by
  by_contra hFile
  obtain ⟨n, hn⟩ := Option.ne_none_iff_exists'.mp hFile
  exact hX (hInv.claim_file hn).1

theorem held_of_publish {m' : ClaimMode} (hPub : Publishes p w t m X) (hY : Y ≠ X)
    (h : Held (w.publish t X) m' Y) : Held w m' Y := by
  obtain ⟨hFile, hKeeper⟩ := h
  have hSame : get t (Spot.claim m' Y).path = w.look (.claim m' Y) :=
    hPub.claim (fun h => hY h.2)
  refine ⟨hSame ▸ hFile, ?_⟩
  rcases hKeeper with hOwner | ⟨r, hChild, hGroup⟩
  · exact Or.inl hOwner
  · exact Or.inr ⟨r, hPub.child.symm.trans hChild, hGroup⟩

/-- In the new tree a claim file is the new one or an old one. -/
theorem Publishes.claim_cases {m' : ClaimMode} {n : Node (Content Details)}
    (hPub : Publishes p w t m X) (h : get t (Spot.claim m' Y).path = some n) :
    (m' = m ∧ Y = X) ∨ w.look (.claim m' Y) = some n := by
  by_cases hNew : m' = m ∧ Y = X
  · exact Or.inl hNew
  · exact Or.inr ((hPub.claim hNew).symm.trans h)

theorem ages_of_publish (hPub : Publishes p w t m X) : Ages w (w.publish t X) where
  published := ⟨[X], rfl⟩
  claim_old := by
    intro m' Y n hY h
    rcases hPub.claim_cases h with ⟨-, rfl⟩ | hLook
    · exact absurd hY hPub.fresh
    · exact hLook
  held := by
    intro m' Y hY h
    refine held_of_publish hPub ?_ h
    rintro rfl
    exact hPub.fresh hY

theorem inv_publish (hInv : Inv w) (hPub : Publishes p w t m X) (hLast : ¬ Waiting w p) :
    Inv (w.publish t X) := by
  have hNone : ∀ {m'}, w.look (.claim m' X) = none := hInv.look_fresh hPub.fresh
  have hOld : ∀ {m' Y}, Y ∈ w.published →
      get t (Spot.claim m' Y).path = w.look (.claim m' Y) := by
    intro m' Y hY
    refine hPub.claim ?_
    rintro ⟨-, rfl⟩
    exact hPub.fresh hY
  have hPrefix : w.published <+: (w.publish t X).published := ⟨[X], rfl⟩
  exact
  { hInv with
    parented := hPub.parented
    issued := by
      intro Y hY
      rcases List.mem_append.mp hY with hY | hY
      · exact hInv.issued hY
      · rw [List.mem_singleton.mp hY]
        exact fun h => by simp [World.publish, hPub.own] at h
    nodup := by
      refine List.nodup_append.mpr ⟨hInv.nodup, List.nodup_singleton X, ?_⟩
      intro a ha b hb
      rw [List.mem_singleton.mp hb]
      rintro rfl
      exact hPub.fresh ha
    claim_file := by
      intro m' Y n h
      rcases hPub.claim_cases h with ⟨rfl, rfl⟩ | hLook
      · obtain ⟨s, d, hFile⟩ := hPub.file
        refine ⟨by simp [World.publish], p, s, d, hPub.own, ?_⟩
        exact Option.some.inj (h.symm.trans hFile)
      · obtain ⟨hY, hContent⟩ := hInv.claim_file hLook
        exact ⟨List.mem_append_left _ hY, hContent⟩
    child_file := fun h => hInv.child_file (hPub.child.symm.trans h)
    child_claim := by
      intro m' Y h
      refine hPub.child.trans ?_
      by_cases hNew : m' = m ∧ Y = X
      · obtain ⟨rfl, rfl⟩ := hNew
        exact hInv.child_claim hNone
      · exact hInv.child_claim ((hPub.claim hNew).symm.trans h)
    one_mode := by
      intro m₁ m₂ Y h₁ h₂
      obtain ⟨n₁, hn₁⟩ := Option.ne_none_iff_exists'.mp h₁
      obtain ⟨n₂, hn₂⟩ := Option.ne_none_iff_exists'.mp h₂
      rcases hPub.claim_cases hn₁ with ⟨rfl, rfl⟩ | hLook₁
      · rcases hPub.claim_cases hn₂ with ⟨rfl, -⟩ | hLook₂
        · rfl
        · simp [hNone] at hLook₂
      · rcases hPub.claim_cases hn₂ with ⟨rfl, rfl⟩ | hLook₂
        · simp [hNone] at hLook₁
        · exact hInv.one_mode (X := Y) (by simp [hLook₁]) (by simp [hLook₂])
    one_exclusive := by
      intro Y Z hY hZ
      obtain ⟨n₁, hn₁⟩ := Option.ne_none_iff_exists'.mp hY
      obtain ⟨n₂, hn₂⟩ := Option.ne_none_iff_exists'.mp hZ
      rcases hPub.claim_cases hn₁ with ⟨hm, rfl⟩ | hLook₁
      · rcases hPub.claim_cases hn₂ with ⟨-, rfl⟩ | hLook₂
        · rfl
        · simp [hPub.alone hm.symm] at hLook₂
      · rcases hPub.claim_cases hn₂ with ⟨hm, rfl⟩ | hLook₂
        · simp [hPub.alone hm.symm] at hLook₁
        · exact hInv.one_exclusive (by simp [hLook₁]) (by simp [hLook₂])
    staging_issued := by
      intro Y h
      obtain ⟨n, hn⟩ := Option.ne_none_iff_exists'.mp h
      exact hInv.staging_issued (by simp [hPub.staging hn])
    below_staging := fun h => hInv.below_staging (hPub.below h)
    stagingChild_file := fun h => hInv.stagingChild_file (hPub.stagingChild.symm.trans h)
    armed := by
      intro q Y c hAlive hLastq
      have hq : q ≠ p := by
        rintro rfl
        exact hLast ⟨_, _, hLastq⟩
      obtain ⟨hY, hFresh, hc, hPlace⟩ := hInv.armed hAlive hLastq
      have hNe : Y ≠ X := by
        rintro rfl
        exact issuedTo_ne hq hY hPub.own
      refine ⟨hY, by simp [World.publish, hFresh, hNe], hc, ?_⟩
      cases hStaging : get t (Spot.staging Y).path with
      | none => exact Or.inl hStaging
      | some n =>
          have hBefore := hPub.staging hStaging
          rcases hPlace with hGone | ⟨hDir, hStaged⟩
          · rw [hGone] at hBefore
            cases hBefore
          · rw [hDir] at hBefore
            cases hBefore
            refine Or.inr ⟨hStaging, ?_⟩
            show get t (Spot.staged Y).path = _ ∨ get t (Spot.staged Y).path = _ ∧ _
            rw [hPub.staged hNe]
            exact hStaged
    handle := by
      intro q h hAlive hHas
      obtain ⟨hPath, hIssued, hFile⟩ := hInv.handle hAlive hHas
      refine ⟨hPath, hIssued, ?_⟩
      obtain ⟨n, hn⟩ := Option.ne_none_iff_exists'.mp hFile
      show get t _ ≠ none
      rw [hOld (hInv.claim_file hn).1]
      exact hFile
    granted_published := fun hY => hPrefix.subset (hInv.granted_published hY)
    order := by
      intro m₁ m₂ Y Z hY hHeld hHeld' hm
      have hYp := hInv.granted_published hY
      have hYX : Y ≠ X := by
        rintro rfl
        exact hPub.fresh hYp
      by_cases hZX : Z = X
      · exact precedes_of_notMem hPrefix hYp (hZX ▸ hPub.fresh)
      · exact precedes_of_isInit hPrefix hYp (hInv.order hY
          (held_of_publish hPub hYX hHeld) (held_of_publish hPub hZX hHeld') hm)
    marked := by
      intro Y hY hKept
      obtain ⟨m', r, hFile, hChild, hr⟩ := hInv.marked hY hKept
      obtain ⟨n, hn⟩ := Option.ne_none_iff_exists'.mp hFile
      refine ⟨m', r, ?_, hPub.child.trans hChild, hr⟩
      show get t _ ≠ none
      rw [hOld (hInv.claim_file hn).1]
      exact hFile
    marked_published := fun hY => hPrefix.subset (hInv.marked_published hY)
    marked_granted := by
      intro Y hY hFile
      obtain ⟨n, hn⟩ := Option.ne_none_iff_exists'.mp hFile
      rcases hPub.claim_cases hn with ⟨-, rfl⟩ | hLook
      · -- its owner lives, so a marked claim has its file already
        have hKept : Kept w Y := Or.inl ⟨p, hPub.own, hPub.alive⟩
        obtain ⟨m', r, hFile', -, -⟩ := hInv.marked hY hKept
        exact absurd hNone hFile'
      · exact hInv.marked_granted hY (by simp [hLook])
    buried := fun hh => (hInv.buried hh).ages (ages_of_publish hPub) }

theorem guar_publish {o : Op Details} (hInv : Inv w) (hReady : Ready w p)
    (hPub : Publishes p w t m X) (hNotable : Notable p ((w.publish t X).note p (some o)) o) :
    (contract Details).Guar p w ((w.publish t X).note p (some o)) := by
  refine guar_between hInv hReady ?_ hReady.1 hNotable
  intro hInv'
  have hPub' : Publishes p (w.note p none) t m X := { hPub with }
  refine ⟨inv_publish hInv' hPub' not_waiting_note_none, ?_⟩
  refine fun q hq => ⟨rfl, ages_of_publish hPub', fun hAlive => ?_⟩
  exact { Rely.refl hAlive with
    toAges := ages_of_publish hPub'
    unpublished := by
      intro Y hY hMem
      rcases List.mem_append.mp hMem with hMem | hMem
      · exact hMem
      · rw [List.mem_singleton.mp hMem] at hY
        exact absurd hPub.own (issuedTo_ne hq hY)
    claim_own := by
      intro m' Y n hY h
      refine (hPub'.claim ?_).trans h
      rintro ⟨-, rfl⟩
      exact issuedTo_ne hq hY hPub.own
    child_own := fun _ => hPub'.child
    child_dead := fun _ _ h => hPub'.child.symm.trans h
    staging_own := fun _ h => hPub'.staging h
    stagingChild_own := fun _ h => hPub'.stagingChild.symm.trans h }

/-- The rename of a staged directory onto `exclusive`. -/
theorem publishes_exclusive {c : Content Details} (hInv : Inv w) (hAlive : w.life p = .alive)
    (hArmed : Armed w p X c) (hDir : w.look (.staging X) ≠ none)
    (hEmpty : isEmptyDir w.tree exclusiveClaimDir = true)
    (hPar : Parented (move (stagingPath X) exclusiveClaimDir w.tree)) :
    Publishes p w (move (stagingPath X) exclusiveClaimDir w.tree) .exclusive X := by
  have hNoExclusive : ∀ Y, w.look (.claim .exclusive Y) = none := fun Y =>
    get_below_of_isEmptyDir hEmpty (List.cons_ne_nil (Name.claim Y) [])
  have hNoChild : ∀ Y, w.look (.child .exclusive Y) = none := fun Y =>
    hInv.child_claim (hNoExclusive Y)
  have hApart : ¬ stagingPath X <+: exclusiveClaimDir := by
    simp [stagingPath, exclusiveClaimDir]
  have hGet := get_rename_dir hEmpty hApart
  obtain ⟨hX, hFresh, ⟨s, d, rfl⟩, hPlace⟩ := hArmed
  -- A sweeper holds an exclusive claim, so `exclusive` would not be empty.
  have hStaged : w.look (.staged X) = some (.file (.claim X .exclusive p s d)) := by
    rcases hPlace with hNone | ⟨-, hFile | ⟨-, q, hAliveq, -, h, hMem, hMode⟩⟩
    · exact absurd hNone hDir
    · exact hFile
    · have hFile := (hInv.handle hAliveq (Or.inl hMem)).2.2
      rw [hMode] at hFile
      exact absurd (hNoExclusive _) hFile
  have hBelowNone : ∀ n, n ≠ .claim X → get w.tree (stagingPath X ++ [n]) = none := by
    intro n hn
    by_contra hSome
    obtain ⟨node, hNode⟩ := Option.ne_none_iff_exists'.mp hSome
    exact hn (hInv.below_staging hNode).1
  refine ⟨hAlive, hPar, hX, hFresh, ⟨s, d, ?_⟩, ?_, ?_, fun _ => hNoExclusive, ?_, ?_, ?_, ?_⟩
  · rw [hGet]
    exact hStaged
  · intro m' Y hNew
    cases m' with
    | exclusive =>
        rw [hGet]
        refine Eq.trans ?_ (hNoExclusive Y).symm
        refine hBelowNone (.claim Y) ?_
        rintro hEq
        cases hEq
        exact hNew ⟨rfl, rfl⟩
    | shared =>
        rw [hGet]
        simp [Spot.path, claimPath, claimDir, sharedClaimDir, exclusiveClaimDir, stagingPath,
          World.look]
  · intro m' Y
    cases m' with
    | exclusive =>
        rw [hGet]
        refine Eq.trans ?_ (hNoChild Y).symm
        exact hBelowNone (.child Y) (by simp)
    | shared =>
        rw [hGet]
        simp [Spot.path, claimDir, sharedClaimDir, exclusiveClaimDir, stagingPath, World.look]
  · intro Y n h
    rw [hGet] at h
    by_cases hYX : Y = X
    · subst hYX
      simp [Spot.path, stagingPath, exclusiveClaimDir] at h
    · simpa [Spot.path, stagingPath, exclusiveClaimDir, Ne.symm hYX, World.look] using h
  · intro Y n rest node h
    rw [hGet] at h
    by_cases hYX : Y = X
    · subst hYX
      simp [stagingPath, exclusiveClaimDir] at h
    · simpa [stagingPath, exclusiveClaimDir, Ne.symm hYX] using h
  · intro Y hYX
    rw [hGet]
    simp [Spot.path, stagedClaim, stagingPath, exclusiveClaimDir, Ne.symm hYX, World.look]
  · intro Y
    rw [hGet]
    simp [Spot.path, stagingChildPath, stagingPath, exclusiveClaimDir, World.look]

/-- The rename of a staged file into `shared`. -/
theorem publishes_shared {s : String} {d : Details}
    (hAlive : w.life p = .alive) (hX : w.issuedTo X = some p) (hFresh : X ∉ w.published)
    (hPar : Parented (put (erase w.tree (stagingPath X)) (claimPath .shared X)
      (.file (.claim X .shared p s d)))) :
    Publishes p w (put (erase w.tree (stagingPath X)) (claimPath .shared X)
      (.file (.claim X .shared p s d))) .shared X := by
  have hGet : ∀ r : Spot, get (put (erase w.tree (stagingPath X)) (claimPath .shared X)
      (.file (.claim X .shared p s d))) r.path =
      if r = .claim .shared X then some (.file (.claim X .shared p s d))
      else if r = .staging X then none else w.look r := by
    intro r
    have h₁ : r.path = claimPath .shared X ↔ r = .claim .shared X :=
      Spot.path_inj (b := .claim .shared X)
    have h₂ : r.path = stagingPath X ↔ r = .staging X :=
      Spot.path_inj (b := .staging X)
    simp only [get_put, get_erase, h₁, h₂]
    rfl
  refine ⟨hAlive, hPar, hX, hFresh, ⟨s, d, ?_⟩, ?_, ?_, ?_, ?_, ?_, ?_, ?_⟩
  · simp [hGet]
  · intro m' Y hNew
    simp [hGet, hNew]
  · intro m' Y
    simp [hGet]
  · intro h
    cases h
  · intro Y n h
    simp only [hGet] at h
    split at h
    · simp at *
    · split at h
      · cases h
      · exact h
  · intro Y n rest node h
    have hNe₁ : stagingPath Y ++ n :: rest ≠ claimPath .shared X := by
      simp [stagingPath, claimPath, claimDir, sharedClaimDir]
    have hNe₂ : stagingPath Y ++ n :: rest ≠ stagingPath X := by simp [stagingPath]
    simpa [get_put, get_erase, hNe₁, hNe₂] using h
  · intro Y _
    simp [hGet]
  · intro Y
    simp [hGet]

end Publish

/-! ## Child records -/

section Child

variable {r : Option ClaimOwner}

/-- The tree after the child record of `X` came into place. -/
def childTree (w : World Details) (m : ClaimMode) (X : ClaimId) (r : Option ClaimOwner) :
    Tree Name (Content Details) :=
  put (erase w.tree (stagingChildPath X)) (Spot.child m X).path (.file (.child r))

theorem get_childTree (s : Spot) :
    get (childTree w m X r) s.path =
      if s = .child m X then some (.file (.child r))
      else if s = .stagingChild X then none else w.look s := by
  have h : s.path = stagingChildPath X ↔ s = .stagingChild X :=
    Spot.path_inj (b := .stagingChild X)
  simp only [childTree, get_put, get_erase, Spot.path_inj, h]
  rfl

theorem get_childTree_below (n : Name) (rest : List Name) :
    get (childTree w m X r) (stagingPath Y ++ n :: rest) =
      get w.tree (stagingPath Y ++ n :: rest) := by
  have hChild : stagingPath Y ++ n :: rest ≠ (Spot.child m X).path := by
    intro h
    have := (Spot.path_eq_below h).1
    cases this
  have hStaging : stagingPath Y ++ n :: rest ≠ stagingChildPath X := by
    simp [stagingPath, stagingChildPath]
  simp [childTree, get_put, get_erase, hChild, hStaging]

/-- What `p` may record as the child of its claim `X`. -/
structure Records (p : ClaimOwner) (w : World Details) (m : ClaimMode) (X : ClaimId)
    (r : Option ClaimOwner) : Prop where
  own : w.issuedTo X = some p
  alive : w.life p = .alive
  file : w.look (.claim m X) ≠ none
  record : r = none ∨ r = w.spawned X
  born : ∀ c, r = some c → w.group c ≠ .unborn ∧ 1 < c.pid
  parented : Parented (childTree w m X r)

theorem held_of_child {m' : ClaimMode} (hRecords : Records p w m X r)
    (h : Held (w.setTree (childTree w m X r)) m' Y) : Held w m' Y := by
  obtain ⟨hFile, hKeeper⟩ := h
  simp only [World.look_setTree, get_childTree, reduceCtorEq, if_false] at hFile
  rcases hKeeper with hOwner | ⟨r', hChild, hGroup⟩
  · exact ⟨hFile, Or.inl hOwner⟩
  · simp only [World.look_setTree, get_childTree, reduceCtorEq, if_false] at hChild
    split at hChild
    · rename_i hNew
      cases hNew
      exact held_own hRecords.own hRecords.alive hFile
    · exact ⟨hFile, Or.inr ⟨r', hChild, hGroup⟩⟩

theorem ages_of_child (hRecords : Records p w m X r) : Ages w (w.setTree (childTree w m X r)) :=
  ⟨List.prefix_rfl, fun _ h => by simpa [get_childTree] using h,
    fun _ h => held_of_child hRecords h⟩

theorem inv_child (hInv : Inv w) (hRecords : Records p w m X r) :
    Inv (w.setTree (childTree w m X r)) := by
  have hClaim : ∀ {m' Y}, (w.setTree (childTree w m X r)).look (.claim m' Y) =
      w.look (.claim m' Y) := fun {m' Y} => by simp [get_childTree]
  exact
  { hInv with
    parented := hRecords.parented
    claim_file := fun h => hInv.claim_file (hClaim.symm.trans h)
    child_file := by
      intro m' Y n h
      simp only [World.look_setTree, get_childTree, reduceCtorEq, if_false] at h
      split at h
      · cases h
        exact ⟨r, rfl, hRecords.born⟩
      · exact hInv.child_file h
    child_claim := by
      intro m' Y h
      rw [hClaim] at h
      simp only [World.look_setTree, get_childTree, reduceCtorEq, if_false]
      split
      · rename_i hNew
        cases hNew
        exact absurd h hRecords.file
      · exact hInv.child_claim h
    one_mode := fun h h' => hInv.one_mode (hClaim ▸ h) (hClaim ▸ h')
    one_exclusive := fun h h' => hInv.one_exclusive (hClaim ▸ h) (hClaim ▸ h')
    staging_issued := fun {Y} h => hInv.staging_issued (by simpa [get_childTree] using h)
    below_staging := fun h => hInv.below_staging (get_childTree_below _ _ ▸ h)
    stagingChild_file := by
      intro Y h
      simp only [World.look_setTree, get_childTree, reduceCtorEq, if_false,
        Option.ite_none_left_eq_some] at h
      exact hInv.stagingChild_file h.2
    armed := by
      intro q Y c hAlive hLastq
      obtain ⟨hY, hFresh, hc, hPlace⟩ := hInv.armed hAlive hLastq
      refine ⟨hY, hFresh, hc, ?_⟩
      simp only [World.look_setTree, get_childTree, reduceCtorEq, if_false]
      exact hPlace
    handle := by
      intro q h hAlive hHas
      rw [hClaim]
      exact hInv.handle hAlive hHas
    order := fun hY h h' => hInv.order hY (held_of_child hRecords h) (held_of_child hRecords h')
    marked := by
      intro Y hY hKept
      obtain ⟨m', r', hFile, hChild, hr⟩ := hInv.marked hY hKept
      by_cases hNew : m' = m ∧ Y = X
      · obtain ⟨rfl, rfl⟩ := hNew
        exact ⟨m', r, hClaim ▸ hFile, by simp [get_childTree], hRecords.record⟩
      · exact ⟨m', r', hClaim ▸ hFile, by simpa [get_childTree, hNew] using hChild, hr⟩
    marked_granted := fun hY hFile => hInv.marked_granted hY (hClaim ▸ hFile)
    buried := fun hh => (hInv.buried hh).ages (ages_of_child hRecords) }

theorem guar_child {o : Op Details} (hInv : Inv w) (hReady : Ready w p)
    (hRecords : Records p w m X r)
    (hNotable : Notable p ((w.setTree (childTree w m X r)).note p (some o)) o) :
    (contract Details).Guar p w ((w.setTree (childTree w m X r)).note p (some o)) := by
  refine guar_between hInv hReady ?_ hReady.1 hNotable
  intro hInv'
  have hRecords' : Records p (w.note p none) m X r := { hRecords with }
  refine ⟨inv_child hInv' hRecords', ?_⟩
  refine fun q hq => ⟨rfl, ages_of_child hRecords', fun hAlive => ?_⟩
  exact { Rely.refl hAlive with
    toAges := ages_of_child hRecords'
    claim_own := fun _ h => by simpa [get_childTree] using h
    child_own := by
      intro m' Y hY
      have hNe : Y ≠ X := by
        rintro rfl
        exact issuedTo_ne hq hY hRecords.own
      simp [get_childTree, hNe]
    child_dead := by
      intro m' Y o n hY ho h
      have hNe : Y ≠ X := by
        rintro rfl
        have hSame : o = p := Option.some.inj (hY.symm.trans hRecords.own)
        rw [hSame] at ho
        exact absurd (hRecords.alive.symm.trans ho) (by simp)
      simpa [get_childTree, hNe] using h
    staging_own := fun _ h => by simpa [get_childTree] using h
    stagingChild_own := by
      intro Y n _ h
      simp only [World.look_note, World.look_setTree, get_childTree, reduceCtorEq, if_false,
        Option.ite_none_left_eq_some] at h
      exact h.2 }

end Child

end Stim.OwnershipClaim
