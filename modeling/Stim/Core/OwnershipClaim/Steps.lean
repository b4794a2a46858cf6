import Stim.Core.OwnershipClaim.Invariant

/-!
# What one request does to the invariant

Each request of a claim program is one of a few kinds of change: it notes the
request, it lets claims and children only disappear (`Shrinks`), it publishes a
claim, it puts a child record in place, or it changes the process's own memory.
This file proves the guarantee of each kind once.
-/

namespace Stim.OwnershipClaim

open Interleaving FileTree

variable {Details : Type} {p q : ClaimOwner} {w w' : World Details} {X Y : ClaimId}
  {m : ClaimMode}

/-! ## Small changes of a world -/

/-- The world with another tree. -/
def World.setTree (w : World Details) (t : Tree Name (Content Details)) : World Details :=
  { w with tree := t }

/-- The world with another last request of `p`. -/
def World.note (w : World Details) (p : ClaimOwner) (o : Option (Op Details)) :
    World Details :=
  { w with last := Function.update w.last p o }

@[simp] theorem World.look_setTree (w : World Details) (t : Tree Name (Content Details))
    (s : Spot) : (w.setTree t).look s = get t s.path := rfl

@[simp] theorem World.look_note (w : World Details) (p : ClaimOwner)
    (o : Option (Op Details)) (s : Spot) : (w.note p o).look s = w.look s := rfl

@[simp] theorem World.note_note (w : World Details) (p : ClaimOwner)
    (o o' : Option (Op Details)) : (w.note p o).note p o' = w.note p o' := by
  simp [note]

theorem World.last_note_ne (w : World Details) (o : Option (Op Details)) (h : q ≠ p) :
    (w.note p o).last q = w.last q := by
  simp [note, h]

theorem World.note_last (w : World Details) : w.note p (w.last p) = w := by
  simp [note]

/-! ## Owners and keepers -/

theorem Inv.issued_some (hInv : Inv w) (hX : X ∈ w.published) : ∃ o, w.issuedTo X = some o := by
  cases h : w.issuedTo X with
  | none => exact absurd h (hInv.issued hX)
  | some o => exact ⟨o, rfl⟩

theorem Inv.born (hInv : Inv w) {o : ClaimOwner} (h : w.issuedTo X = some o) : w.life o ≠ .unborn :=
  fun hLife => (hInv.unborn hLife).2.2 X h

theorem Inv.owner_dead (hInv : Inv w) (hX : X ∈ w.published) (h : ¬ OwnerAlive w X) :
    ∃ o, w.issuedTo X = some o ∧ w.life o = .dead := by
  obtain ⟨o, ho⟩ := hInv.issued_some hX
  refine ⟨o, ho, ?_⟩
  cases hLife : w.life o with
  | unborn => exact absurd hLife (hInv.born ho)
  | alive => exact absurd ⟨o, ho, hLife⟩ h
  | dead => rfl

theorem Keeps.mem_published (hKeeps : Keeps p w w') (hX : X ∈ w.published) : X ∈ w'.published :=
  hKeeps.published.subset hX

/-- Publishing more claims leaves the order of the earlier ones alone. -/
theorem precedes_of_isInit {u v : World Details} (hPrefix : u.published <+: v.published)
    (hX : X ∈ u.published) (h : Precedes u X Y) : Precedes v X Y := by
  obtain ⟨more, hMore⟩ := hPrefix
  unfold Precedes at h ⊢
  rw [← hMore, List.idxOf_append_of_mem hX]
  by_cases hY : Y ∈ u.published
  · rwa [List.idxOf_append_of_mem hY]
  · rw [List.idxOf_append_of_notMem hY]
    have := List.idxOf_lt_length_iff.mpr hX
    omega

theorem precedes_of_notMem {u v : World Details} (hPrefix : u.published <+: v.published)
    (hX : X ∈ u.published) (hY : Y ∉ u.published) : Precedes v X Y := by
  obtain ⟨more, hMore⟩ := hPrefix
  unfold Precedes
  rw [← hMore, List.idxOf_append_of_mem hX, List.idxOf_append_of_notMem hY]
  have := List.idxOf_lt_length_iff.mpr hX
  omega

theorem held_own (hX : w.issuedTo X = some p) (hAlive : w.life p = .alive)
    (hFile : w.look (.claim m X) ≠ none) : Held w m X :=
  ⟨hFile, Or.inl ⟨p, hX, hAlive⟩⟩

/-- A marked claim that is kept is held where its files are. -/
theorem held_of_marked {r : Option ClaimOwner} (hKept : Kept w X)
    (hFile : w.look (.claim m X) ≠ none) (hChild : w.look (.child m X) = some (.file (.child r)))
    (hr : r = none ∨ r = w.spawned X) : Held w m X := by
  refine ⟨hFile, ?_⟩
  rcases hKept with hOwner | ⟨c, hc, hGroup⟩
  · exact Or.inl hOwner
  · refine Or.inr ⟨r, hChild, ?_⟩
    rintro k rfl
    rcases hr with hr | hr
    · cases hr
    · rw [hc] at hr
      cases hr
      exact hGroup

/-! ## Changes in which claims and children only disappear -/

/-- The claims and staging entries of `q` that a new tree leaves alone. -/
structure Spares (q : ClaimOwner) (w : World Details) (t : Tree Name (Content Details)) :
    Prop where
  claim : ∀ {m X}, w.issuedTo X = some q → get t (Spot.claim m X).path = w.look (.claim m X)
  child : ∀ {m X}, w.issuedTo X = some q → get t (Spot.child m X).path = w.look (.child m X)
  staging : ∀ {X n}, w.issuedTo X = some q → get t (Spot.staging X).path = some n →
    w.look (.staging X) = some n
  stagingChild : ∀ {X n}, w.issuedTo X = some q →
    get t (Spot.stagingChild X).path = some n → w.look (.stagingChild X) = some n

/-- A tree that `p` may put in place of the world's: it adds nothing but staging
entries of `p`, and takes nothing from the other processes. -/
structure Shrinks (p : ClaimOwner) (w : World Details) (t : Tree Name (Content Details)) :
    Prop where
  parented : Parented t
  claim : ∀ {m X n}, get t (Spot.claim m X).path = some n → w.look (.claim m X) = some n
  child : ∀ {m X n}, get t (Spot.child m X).path = some n → w.look (.child m X) = some n
  child_claim : ∀ {m X}, get t (Spot.claim m X).path = none →
    get t (Spot.child m X).path = none
  handle : ∀ {h}, (w.memory p).Has h → get t (Spot.claim h.mode h.claimId).path ≠ none
  marked : ∀ {m X r}, w.marked X = true → Held w m X →
    w.look (.child m X) = some (.file (.child r)) →
    get t (Spot.claim m X).path ≠ none ∧
      get t (Spot.child m X).path = some (.file (.child r))
  staging : ∀ {X}, get t (Spot.staging X).path ≠ none → w.issuedTo X ≠ none
  below : ∀ {X n rest node}, get t (stagingPath X ++ n :: rest) = some node →
    n = .claim X ∧ rest = [] ∧ node ≠ .dir
  stagingChild : ∀ {X}, get t (Spot.stagingChild X).path ≠ some .dir
  staged : ∀ {X}, w.issuedTo X ≠ some p →
    get t (Spot.staged X).path = w.look (.staged X) ∨
      get t (Spot.staged X).path = none ∧ Sweeping w p X
  spares : ∀ {q}, q ≠ p → w.life q = .alive → Spares q w t

variable {t : Tree Name (Content Details)}

theorem Shrinks.claim_ne (hShrinks : Shrinks p w t) (h : get t (Spot.claim m X).path ≠ none) :
    w.look (.claim m X) ≠ none := by
  obtain ⟨n, hn⟩ := Option.ne_none_iff_exists'.mp h
  rw [hShrinks.claim hn]
  exact Option.some_ne_none n

theorem held_of_shrinks (hShrinks : Shrinks p w t) (h : Held (w.setTree t) m X) : Held w m X := by
  obtain ⟨hFile, hKeeper⟩ := h
  refine ⟨hShrinks.claim_ne hFile, ?_⟩
  rcases hKeeper with hOwner | ⟨r, hChild, hGroup⟩
  · exact Or.inl hOwner
  · exact Or.inr ⟨r, hShrinks.child hChild, hGroup⟩

theorem ages_of_shrinks (hShrinks : Shrinks p w t) : Ages w (w.setTree t) :=
  ⟨List.prefix_rfl, fun _ h => hShrinks.claim h, fun _ h => held_of_shrinks hShrinks h⟩

theorem rely_of_spares (hShrinks : Shrinks p w t) (hSpares : Spares q w t)
    (hAlive : w.life q = .alive) : Rely q w (w.setTree t) :=
  { Rely.refl hAlive with
    toAges := ages_of_shrinks hShrinks
    claim_own := fun hX h => (hSpares.claim hX).trans h
    child_own := fun hX => hSpares.child hX
    child_dead := fun _ _ h => hShrinks.child h
    staging_own := hSpares.staging
    stagingChild_own := hSpares.stagingChild }

/-- A process whose last request was a write waits for its rename. -/
def Waiting (w : World Details) (p : ClaimOwner) : Prop :=
  ∃ path c, w.last p = some (.writeFile path c)

theorem inv_of_shrinks (hInv : Inv w) (hShrinks : Shrinks p w t) (hLast : ¬ Waiting w p) :
    Inv (w.setTree t) :=
  { hInv with
    parented := hShrinks.parented
    claim_file := fun h => hInv.claim_file (hShrinks.claim h)
    child_file := fun h => hInv.child_file (hShrinks.child h)
    child_claim := hShrinks.child_claim
    one_mode := fun h h' => hInv.one_mode (hShrinks.claim_ne h) (hShrinks.claim_ne h')
    one_exclusive := fun h h' =>
      hInv.one_exclusive (hShrinks.claim_ne h) (hShrinks.claim_ne h')
    staging_issued := hShrinks.staging
    below_staging := hShrinks.below
    stagingChild_file := hShrinks.stagingChild
    armed := by
      intro q X c hAlive hLastq
      have hq : q ≠ p := by
        rintro rfl
        exact hLast ⟨_, _, hLastq⟩
      obtain ⟨hX, hFresh, hc, hPlace⟩ := hInv.armed hAlive hLastq
      refine ⟨hX, hFresh, hc, ?_⟩
      have hSpares := hShrinks.spares hq hAlive
      cases hStaging : get t (Spot.staging X).path with
      | none => exact Or.inl hStaging
      | some n =>
          have hBefore := hSpares.staging hX hStaging
          rcases hPlace with hNone | ⟨hDir, hStaged⟩
          · rw [hNone] at hBefore
            cases hBefore
          · rw [hDir] at hBefore
            cases hBefore
            refine Or.inr ⟨hStaging, ?_⟩
            have hNe : w.issuedTo X ≠ some p := by
              rw [hX]
              exact fun h => hq (Option.some.inj h)
            rcases hShrinks.staged hNe with hSame | ⟨hGone, hSweep⟩
            · show get t (Spot.staged X).path = _ ∨ get t (Spot.staged X).path = _ ∧ _
              rw [hSame]
              exact hStaged
            · exact Or.inr ⟨hGone, p, hSweep⟩
    handle := by
      intro q h hAlive hHas
      obtain ⟨hPath, hIssued, hFile⟩ := hInv.handle hAlive hHas
      refine ⟨hPath, hIssued, ?_⟩
      by_cases hq : q = p
      · subst hq
        exact hShrinks.handle hHas
      · show get t _ ≠ none
        rw [(hShrinks.spares hq hAlive).claim hIssued]
        exact hFile
    order := fun hX hHeld hHeld' hm =>
      hInv.order hX (held_of_shrinks hShrinks hHeld) (held_of_shrinks hShrinks hHeld') hm
    marked := by
      intro X hX hKept
      obtain ⟨m, r, hFile, hChild, hr⟩ := hInv.marked hX hKept
      obtain ⟨hFile', hChild'⟩ :=
        hShrinks.marked hX (held_of_marked hKept hFile hChild hr) hChild
      exact ⟨m, r, hFile', hChild', hr⟩
    marked_granted := fun hX hFile => hInv.marked_granted hX (hShrinks.claim_ne hFile)
    buried := fun hh => (hInv.buried hh).ages (ages_of_shrinks hShrinks) }

theorem guar_of_shrinks (hInv : Inv w) (hShrinks : Shrinks p w t) (hLast : ¬ Waiting w p) :
    (contract Details).Guar p w (w.setTree t) where
  inv := inv_of_shrinks hInv hShrinks hLast
  others := fun _ hq => ⟨rfl, ages_of_shrinks hShrinks, fun hAlive =>
    rely_of_spares hShrinks (hShrinks.spares hq hAlive) hAlive⟩

/-! ## Trees that shrink -/

/-- Nothing that matters changes when only the directories do. -/
theorem shrinks_of_same (hInv : Inv w) (hAlive : w.life p = .alive) (hPar : Parented t)
    (hClaim : ∀ m X, get t (Spot.claim m X).path = w.look (.claim m X))
    (hChild : ∀ m X, get t (Spot.child m X).path = w.look (.child m X))
    (hStaging : ∀ X n, get t (Spot.staging X).path = some n →
      w.look (.staging X) = some n ∨ w.issuedTo X = some p)
    (hBelow : ∀ X n rest, get t (stagingPath X ++ n :: rest) =
        get w.tree (stagingPath X ++ n :: rest) ∨
      (w.issuedTo X = some p ∨ Sweeping w p X) ∧ get t (stagingPath X ++ n :: rest) = none ∨
      w.issuedTo X = some p ∧ n = .claim X ∧ rest = [] ∧
        get t (stagingPath X ++ n :: rest) ≠ some .dir)
    (hStagingChild : ∀ X n, get t (Spot.stagingChild X).path = some n →
      w.look (.stagingChild X) = some n ∨ w.issuedTo X = some p ∧ n ≠ .dir) :
    Shrinks p w t where
  parented := hPar
  claim := fun h => hClaim _ _ ▸ h
  child := fun h => hChild _ _ ▸ h
  child_claim := by
    intro m X h
    rw [hClaim] at h
    rw [hChild]
    exact hInv.child_claim h
  handle := by
    intro h hHas
    rw [hClaim]
    exact (hInv.handle hAlive hHas).2.2
  marked := by
    intro m X r _ hHeld hr
    rw [hClaim, hChild]
    exact ⟨hHeld.1, hr⟩
  staging := by
    intro X h
    obtain ⟨n, hn⟩ := Option.ne_none_iff_exists'.mp h
    rcases hStaging X n hn with hOld | hOwn
    · exact hInv.staging_issued (by simp [hOld])
    · simp [hOwn]
  below := by
    intro X n rest node h
    rcases hBelow X n rest with hOld | ⟨-, hNone⟩ | ⟨-, hn, hrest, hDir⟩
    · exact hInv.below_staging (hOld ▸ h)
    · rw [hNone] at h
      cases h
    · refine ⟨hn, hrest, ?_⟩
      rintro rfl
      exact hDir h
  stagingChild := by
    intro X h
    rcases hStagingChild X _ h with hOld | ⟨-, hDir⟩
    · exact hInv.stagingChild_file hOld
    · exact hDir rfl
  staged := by
    intro X hX
    rcases hBelow X (.claim X) [] with hOld | ⟨hOwn | hSweep, hNone⟩ | ⟨hOwn, -⟩
    · exact Or.inl hOld
    · exact absurd hOwn hX
    · exact Or.inr ⟨hNone, hSweep⟩
    · exact absurd hOwn hX
  spares := by
    intro q hq _
    have hNe : ∀ {X}, w.issuedTo X = some q → w.issuedTo X ≠ some p := by
      intro X hX hX'
      rw [hX] at hX'
      exact hq (Option.some.inj hX')
    exact {
      claim := fun _ => hClaim _ _
      child := fun _ => hChild _ _
      staging := fun hX h => (hStaging _ _ h).resolve_right (hNe hX)
      stagingChild := fun hX h => (hStagingChild _ _ h).resolve_right fun h => hNe hX h.1 }

/-- The places that hold no published claim and no child record. -/
def Spot.isOuter : Spot → Prop
  | .claim _ _ | .child _ _ => False
  | _ => True

/-- The process whose staging place this is. -/
def Spot.ownedBy (p : ClaimOwner) (w : World Details) : Spot → Prop
  | .staging X | .staged X | .stagingChild X => w.issuedTo X = some p
  | _ => True

variable {s : Spot}

theorem Spot.claim_ne (h : s.isOuter) : Spot.claim m X ≠ s := by
  rintro rfl
  exact h

theorem Spot.child_ne (h : s.isOuter) : Spot.child m X ≠ s := by
  rintro rfl
  exact h

/-- Removing a directory or a staging entry; another's staged claim only in a sweep. -/
theorem shrinks_erase_outer (hInv : Inv w) (hAlive : w.life p = .alive) (hs : s.isOuter)
    (hPar : Parented (erase w.tree s.path))
    (hStaged : ∀ X, s = .staged X → w.issuedTo X = some p ∨ Sweeping w p X) :
    Shrinks p w (erase w.tree s.path) := by
  refine shrinks_of_same hInv hAlive hPar ?_ ?_ ?_ ?_ ?_
  · intro m X
    simp [get_erase, Spot.claim_ne hs, World.look]
  · intro m X
    simp [get_erase, Spot.child_ne hs, World.look]
  · intro X n h
    simp only [get_erase, Option.ite_none_left_eq_some] at h
    exact Or.inl h.2
  · intro X n rest
    rw [get_erase]
    split
    · rename_i hPath
      obtain ⟨hX, hn, hrest⟩ := Spot.path_eq_below hPath
      exact Or.inr (Or.inl ⟨hStaged X hX, rfl⟩)
    · exact Or.inl rfl
  · intro X n h
    simp only [get_erase, Option.ite_none_left_eq_some] at h
    exact Or.inl h.2

/-- Creating a directory of the store or an entry of the process's own staging. -/
theorem shrinks_put_outer {n : Node (Content Details)} (hInv : Inv w) (hAlive : w.life p = .alive)
    (hs : s.isOuter) (hPar : Parented (put w.tree s.path n)) (hOwn : s.ownedBy p w)
    (hFile : ∀ X, s = .staged X ∨ s = .stagingChild X → n ≠ .dir) :
    Shrinks p w (put w.tree s.path n) := by
  refine shrinks_of_same hInv hAlive hPar ?_ ?_ ?_ ?_ ?_
  · intro m X
    simp [get_put, Spot.claim_ne hs, World.look]
  · intro m X
    simp [get_put, Spot.child_ne hs, World.look]
  · intro X n' h
    rw [get_put] at h
    split at h
    · rename_i hPath
      obtain rfl := Spot.path_inj.mp hPath
      exact Or.inr hOwn
    · exact Or.inl h
  · intro X n' rest
    rw [get_put]
    split
    · rename_i hPath
      obtain ⟨rfl, hn, hrest⟩ := Spot.path_eq_below hPath
      exact Or.inr (Or.inr ⟨hOwn, hn, hrest, fun h => hFile X (Or.inl rfl) (Option.some.inj h)⟩)
    · exact Or.inl rfl
  · intro X n' h
    rw [get_put] at h
    split at h
    · rename_i hPath
      obtain rfl := Spot.path_inj.mp hPath
      cases h
      exact Or.inr ⟨hOwn, hFile X (Or.inr rfl)⟩
    · exact Or.inl h

theorem shrinks_refl (hInv : Inv w) (hAlive : w.life p = .alive) : Shrinks p w w.tree :=
  shrinks_of_same hInv hAlive hInv.parented (fun _ _ => rfl) (fun _ _ => rfl) (fun _ _ h => Or.inl h)
    (fun _ _ _ => Or.inl rfl) (fun _ _ h => Or.inl h)

/-- `p` may remove the child record of the claim `X`: the claim is its own and not marked,
or nothing holds it. -/
def Removable (p : ClaimOwner) (w : World Details) (m : ClaimMode) (X : ClaimId) : Prop :=
  (w.issuedTo X = some p ∧ w.marked X = false) ∨ (X ∈ w.published ∧ ¬ Held w m X)

/-- The file of a claim without child record that is not in its owner's memory, unless
nothing holds it. -/
def Bare (p : ClaimOwner) (w : World Details) (m : ClaimMode) (X : ClaimId) : Prop :=
  w.look (.child m X) = none ∧ ((∀ h, (w.memory p).Has h → h.claimId ≠ X) ∨ ¬ Held w m X)

/-- A live process loses nothing to a removal of what is not held. -/
theorem look_none_of_not_held (hAlive : w.life q = .alive) (hX : w.issuedTo X = some q)
    (h : ¬ Held w m X) : w.look (.claim m X) = none := by
  by_contra hFile
  exact h (held_own hX hAlive hFile)

theorem issuedTo_ne (hq : q ≠ p) (hX : w.issuedTo X = some q) : w.issuedTo X ≠ some p := by
  rw [hX]
  exact fun h => hq (Option.some.inj h)

/-- A removal of a claim's file spares every live process it does not belong to. -/
theorem spares_erase (hInv : Inv w) (hAlive : w.life q = .alive)
    (hs : s = .claim m X ∨ s = .child m X) (hOther : w.issuedTo X ≠ some q ∨ ¬ Held w m X) :
    Spares q w (erase w.tree s.path) := by
  have hGone : ∀ {Y}, w.issuedTo Y = some q → Y = X →
      w.look (.claim m X) = none ∧ w.look (.child m X) = none := by
    rintro Y hY rfl
    rcases hOther with hNe | hNot
    · exact absurd hY hNe
    · have hNone := look_none_of_not_held hAlive hY hNot
      exact ⟨hNone, hInv.child_claim hNone⟩
  refine ⟨?_, ?_, ?_, ?_⟩
  · intro m' Y hY
    rw [get_erase]
    split
    · rename_i hPath
      obtain rfl := Spot.path_inj.mp hPath
      rcases hs with hs | hs
      · cases hs
        exact (hGone hY rfl).1.symm
      · cases hs
    · rfl
  · intro m' Y hY
    rw [get_erase]
    split
    · rename_i hPath
      obtain rfl := Spot.path_inj.mp hPath
      rcases hs with hs | hs
      · cases hs
      · cases hs
        exact (hGone hY rfl).2.symm
    · rfl
  · intro Y n hY h
    simp only [get_erase, Option.ite_none_left_eq_some] at h
    exact h.2
  · intro Y n hY h
    simp only [get_erase, Option.ite_none_left_eq_some] at h
    exact h.2

/-- Removing a claim's child record, or the claim once it has none. -/
theorem shrinks_erase_claim (hInv : Inv w) (hAlive : w.life p = .alive)
    (hs : s = .child m X ∨ s = .claim m X ∧ Bare p w m X) (hPar : Parented (erase w.tree s.path))
    (hRemovable : Removable p w m X) : Shrinks p w (erase w.tree s.path) := by
  have hMarked : w.marked X = true → ¬ Held w m X := by
    intro hMarked
    rcases hRemovable with ⟨-, hNot⟩ | ⟨-, hNot⟩
    · simp [hMarked] at hNot
    · exact hNot
  refine ⟨hPar, ?_, ?_, ?_, ?_, ?_, ?_, ?_, ?_, ?_, ?_⟩
  · intro m' Y n h
    simp only [get_erase, Option.ite_none_left_eq_some] at h
    exact h.2
  · intro m' Y n h
    simp only [get_erase, Option.ite_none_left_eq_some] at h
    exact h.2
  · intro m' Y h
    rw [get_erase] at h ⊢
    by_cases hPath : (Spot.child m' Y).path = s.path
    · simp [hPath]
    · simp only [hPath, if_false]
      split at h
      · rename_i hClaim
        rcases hs with rfl | ⟨rfl, hNone, -⟩
        · simp at hClaim
        · simp only [Spot.path_inj, Spot.claim.injEq] at hClaim
          obtain ⟨rfl, rfl⟩ := hClaim
          exact hNone
      · exact hInv.child_claim h
  · intro h hHas
    have hFile := (hInv.handle hAlive hHas).2
    rw [get_erase]
    split
    · rename_i hClaim
      rcases hs with rfl | ⟨rfl, -, hFree⟩
      · simp at hClaim
      · simp only [Spot.path_inj, Spot.claim.injEq] at hClaim
        obtain ⟨rfl, rfl⟩ := hClaim
        rcases hFree with hNot | hNot
        · exact absurd rfl (hNot h hHas)
        · exact absurd (held_own hFile.1 hAlive hFile.2) hNot
    · exact hFile.2
  · intro m' Y r hY hHeld hChild
    have hNe : ¬ (m' = m ∧ Y = X) := by
      rintro ⟨rfl, rfl⟩
      exact hMarked hY hHeld
    have hSpot : Spot.claim m' Y ≠ s ∧ Spot.child m' Y ≠ s := by
      rcases hs with rfl | ⟨rfl, -⟩ <;> simp [hNe]
    simp only [get_erase, Spot.path_inj, hSpot, if_false]
    exact ⟨hHeld.1, hChild⟩
  · intro Y h
    rw [get_erase] at h
    split at h
    · exact absurd rfl h
    · exact hInv.staging_issued h
  · intro Y n rest node h
    simp only [get_erase, Option.ite_none_left_eq_some] at h
    exact hInv.below_staging h.2
  · intro Y h
    simp only [get_erase, Option.ite_none_left_eq_some] at h
    exact hInv.stagingChild_file h.2
  · intro Y hY
    have hSpot : Spot.staged Y ≠ s := by
      rcases hs with rfl | ⟨rfl, -⟩ <;> simp
    exact Or.inl (by simp [get_erase, hSpot, World.look])
  · intro q hq hAliveq
    refine spares_erase (m := m) (X := X) hInv hAliveq ?_ ?_
    · rcases hs with rfl | ⟨rfl, -⟩ <;> simp
    · rcases hRemovable with ⟨hOwn, -⟩ | ⟨-, hNot⟩
      · exact Or.inl fun h => hq (Option.some.inj (h.symm.trans hOwn))
      · exact Or.inr hNot

/-! ## Notes -/

/-- What a process must know before it performs a request: it has not left a foreign
staging directory emptied behind. -/
def Ready (w : World Details) (p : ClaimOwner) : Prop :=
  w.life p = .alive ∧
    ∀ X, w.last p = some (.unlink (stagedClaim X)) → w.issuedTo X = some p

/-- The request may be noted as the last one of `p`. -/
def Notable (p : ClaimOwner) (w : World Details) (o : Op Details) : Prop :=
  (∀ X c, o = .writeFile (stagedClaim X) c → Armed w p X c) ∧
    ∀ X, o = .unlink (stagedClaim X) → w.issuedTo X = some p ∨ (w.memory p).clearing = true

theorem notable_quiet {o : Op Details} (hWrite : ∀ X c, o ≠ .writeFile (stagedClaim X) c)
    (hUnlink : ∀ X, o ≠ .unlink (stagedClaim X)) : Notable p w o :=
  ⟨fun X c h => absurd h (hWrite X c), fun X h => absurd h (hUnlink X)⟩

/-- Only the note of `p` differs. -/
theorem rely_note (o : Option (Op Details)) (hq : q ≠ p) (hAlive : w.life q = .alive) :
    Rely q w (w.note p o) :=
  { Rely.refl hAlive with last := World.last_note_ne w o hq }

variable {o : Option (Op Details)}

/-- An armed process stays armed when the note of a process that does not sweep its
staging directory changes. -/
theorem Armed.note {c : Content Details} (h : Armed w q X c)
    (hp : w.last p = some (.unlink (stagedClaim X)) → w.issuedTo X = some p) (hq : q ≠ p) :
    Armed (w.note p o) q X c := by
  obtain ⟨hX, hFresh, hc, hPlace⟩ := h
  refine ⟨hX, hFresh, hc, ?_⟩
  rcases hPlace with hNone | ⟨hDir, hFile | ⟨hNone, r, hSweep⟩⟩
  · exact Or.inl hNone
  · exact Or.inr ⟨hDir, Or.inl hFile⟩
  · refine Or.inr ⟨hDir, Or.inr ⟨hNone, r, hSweep.1, ?_, hSweep.2.2⟩⟩
    have hr : r ≠ p := by
      rintro rfl
      exact issuedTo_ne hq hX (hp hSweep.2.1)
    rw [World.last_note_ne w o hr]
    exact hSweep.2.1

theorem inv_note (hInv : Inv w) (hReady : Ready w p)
    (hNotable : ∀ a, o = some a → Notable p (w.note p o) a) : Inv (w.note p o) :=
  { hInv with
    unborn := by
      intro q hq
      have hne : q ≠ p := by
        rintro rfl
        rw [show (w.note q o).life q = w.life q from rfl, hReady.1] at hq
        cases hq
      obtain ⟨hMemory, hLast, hIssued⟩ := hInv.unborn hq
      exact ⟨hMemory, (World.last_note_ne w o hne).trans hLast, hIssued⟩
    armed := by
      intro q X c hAlive hLast
      by_cases hq : q = p
      · subst hq
        simp only [World.note, Function.update_self] at hLast
        exact (hNotable _ hLast).1 X c rfl
      · rw [World.last_note_ne w o hq] at hLast
        exact (hInv.armed hAlive hLast).note (hReady.2 X) hq
    foreign := by
      intro q X hAlive hLast
      by_cases hq : q = p
      · subst hq
        simp only [World.note, Function.update_self] at hLast
        exact (hNotable _ hLast).2 X rfl
      · rw [World.last_note_ne w o hq] at hLast
        exact hInv.foreign hAlive hLast }

theorem guar_note (hInv : Inv w) (hReady : Ready w p)
    (hNotable : ∀ a, o = some a → Notable p (w.note p o) a) :
    (contract Details).Guar p w (w.note p o) where
  inv := inv_note hInv hReady hNotable
  others := fun _ hq => ⟨rfl, { Ages.refl w with }, fun hAlive => rely_note o hq hAlive⟩

theorem ready_note_none (hReady : Ready w p) : Ready (w.note p none) p := by
  refine ⟨hReady.1, ?_⟩
  intro X h
  simp [World.note] at h

theorem not_waiting_note_none : ¬ Waiting (w.note p none) p := by
  rintro ⟨path, c, h⟩
  simp [World.note] at h

/-- Forgetting the last request. -/
theorem guar_relax (hInv : Inv w) (hReady : Ready w p) :
    (contract Details).Guar p w (w.note p none) :=
  guar_note hInv hReady (fun _ h => by cases h)

/-- A request between two notes: `p` forgets its last request, changes the world, and
notes the new one. -/
theorem guar_between {o : Op Details} (hInv : Inv w) (hReady : Ready w p)
    (hChange : Inv (w.note p none) →
      (contract Details).Guar p (w.note p none) (w'.note p none))
    (hAlive : w'.life p = .alive) (hNotable : Notable p (w'.note p (some o)) o) :
    (contract Details).Guar p w (w'.note p (some o)) := by
  have hRelax := guar_relax hInv hReady
  have hMid := hChange hRelax.inv
  have hNote : (contract Details).Guar p (w'.note p none)
      ((w'.note p none).note p (some o)) := by
    refine guar_note hMid.inv ⟨hAlive, fun X h => by simp [World.note] at h⟩ ?_
    intro a ha
    cases ha
    rwa [World.note_note]
  rw [World.note_note] at hNote
  exact (hRelax.trans hMid).trans hNote

/-- A request that only shrinks the tree. -/
theorem guar_act {o : Op Details} (hInv : Inv w) (hReady : Ready w p)
    (hShrinks : Inv (w.note p none) → Shrinks p (w.note p none) t)
    (hNotable : Notable p ((w.setTree t).note p (some o)) o) :
    (contract Details).Guar p w ((w.setTree t).note p (some o)) := by
  refine guar_between hInv hReady ?_ hReady.1 hNotable
  intro hInv'
  exact guar_of_shrinks hInv' (hShrinks hInv') not_waiting_note_none

/-- Taking the claim out of another's staging directory. -/
theorem guar_sweep (hInv : Inv w) (hAlive : w.life p = .alive)
    (hLast : Ready w p ∨ w.last p = some (.unlink (stagedClaim X)))
    (hClearing : (w.memory p).clearing = true)
    (hHolds : ∃ h ∈ (w.memory p).acquired, h.mode = .exclusive) (hPar : Parented t)
    (ht : t = w.tree ∨ t = erase w.tree (stagedClaim X)) :
    (contract Details).Guar p w
      ((w.setTree t).note p (some (.unlink (stagedClaim X)))) := by
  have hNote : (contract Details).Guar p w (w.note p (some (.unlink (stagedClaim X)))) := by
    rcases hLast with hReady | hLast
    · refine guar_note hInv hReady ?_
      rintro a ha
      cases ha
      exact ⟨fun Y c h => by simp at h, fun Y _ => Or.inr hClearing⟩
    · rw [← hLast, World.note_last]
      exact ⟨hInv, fun q _ => (contract Details).rely_refl q w⟩
  refine hNote.trans (guar_of_shrinks hNote.inv ?_ ?_)
  · rcases ht with rfl | rfl
    · exact shrinks_refl hNote.inv hAlive
    · refine shrinks_erase_outer (s := .staged X) hNote.inv hAlive trivial hPar ?_
      intro Y hY
      cases hY
      exact Or.inr ⟨hAlive, by simp [World.note], hHolds⟩
  · rintro ⟨path, c, h⟩
    simp [World.note] at h

/-- Removing an emptied staging directory ends a sweep. -/
theorem guar_swept (hInv : Inv w) (hAlive : w.life p = .alive)
    (hLast : Ready w p ∨ w.last p = some (.unlink (stagedClaim X))) (hPar : Parented t)
    (ht : t = w.tree ∧ (w.look (.staging X) ≠ some .dir ∨ w.look (.staged X) ≠ none) ∨
      t = erase w.tree (stagingPath X)) :
    (contract Details).Guar p w
      ((w.setTree t).note p (some (.rmdir (stagingPath X)))) := by
  have hNotable : Notable p ((w.setTree t).note p (some (.rmdir (stagingPath X))))
      (.rmdir (stagingPath X)) := notable_quiet (by simp) (by simp)
  have hErase : ∀ {v : World Details}, Inv v → v.life p = .alive → v.tree = w.tree →
      Shrinks p v t := by
    intro v hv hAlive' hTree
    rcases ht with ⟨rfl, -⟩ | rfl
    · rw [← hTree]
      exact shrinks_refl hv hAlive'
    · rw [← hTree] at hPar ⊢
      exact shrinks_erase_outer (s := .staging X) hv hAlive' trivial hPar
        (fun Y h => by cases h)
  rcases hLast with hReady | hLast
  · exact guar_act hInv hReady (fun hInv' => hErase hInv' hAlive rfl) hNotable
  · -- The directory goes first; then nobody waits for `p` any more.
    have hGone := guar_of_shrinks hInv (hErase hInv hAlive rfl)
      (by rintro ⟨path, c, h⟩; simp [hLast] at h)
    refine hGone.trans ⟨?_, fun q hq => ⟨rfl, { Ages.refl (w.setTree t) with },
      fun hq' => rely_note _ hq hq'⟩⟩
    have hStaging : ∀ {q c}, Armed (w.setTree t) q X c →
        (w.setTree t).look (.staging X) = none ∨ (w.setTree t).look (.staged X) ≠ none := by
      rintro q c ⟨-, -, -, hNone | ⟨hDir, -⟩⟩
      · exact Or.inl hNone
      · rcases ht with ⟨rfl, hNot | hSome⟩ | rfl
        · exact absurd hDir hNot
        · exact Or.inr hSome
        · exact Or.inl (by simp [World.look, World.setTree, get_erase, Spot.path])
    have hInv' := hGone.inv
    exact { hInv' with
      unborn := by
        intro q hq
        have hne : q ≠ p := by
          rintro rfl
          exact absurd (hAlive.symm.trans hq) (by simp)
        obtain ⟨hMemory, hLast', hIssued⟩ := hInv'.unborn hq
        exact ⟨hMemory, (World.last_note_ne _ _ hne).trans hLast', hIssued⟩
      armed := by
        intro q Y c hq hLast'
        by_cases hqp : q = p
        · subst hqp
          simp [World.note] at hLast'
        · rw [World.last_note_ne _ _ hqp] at hLast'
          have hArmed := hInv'.armed hq hLast'
          by_cases hYX : Y = X
          · subst hYX
            have hPlace := hStaging hArmed
            obtain ⟨hY, hFresh, hc, hOld⟩ := hArmed
            refine ⟨hY, hFresh, hc, ?_⟩
            rcases hOld with hNone | ⟨hDir, hFile | ⟨hNone, -⟩⟩
            · exact Or.inl hNone
            · exact Or.inr ⟨hDir, Or.inl hFile⟩
            · exact Or.inl (hPlace.resolve_right (fun h => h hNone))
          · refine hArmed.note (fun h => ?_) hqp
            rw [show (w.setTree t).last p = w.last p from rfl, hLast] at h
            simp only [Option.some.injEq, Op.unlink.injEq] at h
            exact absurd (by simpa [stagedClaim] using h.symm) hYX
      foreign := by
        intro q Y hq hLast'
        by_cases hqp : q = p
        · subst hqp
          simp [World.note] at hLast'
        · rw [World.last_note_ne _ _ hqp] at hLast'
          exact hInv'.foreign hq hLast' }

end Stim.OwnershipClaim
