import Stim.Core.OwnershipClaim.Lifecycle

/-!
# Reading a claim

Programs that leave the claims of their own process alone (`Does`), and what the
reading programs answer: a claim that reads as dead is held by nobody, from then
on.
-/

namespace Stim.OwnershipClaim

open Interleaving FileTree

variable {Details : Type} {rounds : Nat} {p : ClaimOwner} {w w' : World Details}
  {X Y : ClaimId} {m : ClaimMode} {α β : Type}

theorem Ready.rely (h : Ready w p) (hRely : Rely p w w') : Ready w' p := by
  refine ⟨hRely.alive, fun X hLast => ?_⟩
  rw [hRely.last] at hLast
  exact hRely.issued (h.2 X hLast)

variable {o : Op Details}

theorem ready_note (hAlive : w.life p = .alive) (ho : ∀ X, o ≠ .unlink (stagedClaim X)) :
    Ready (w.note p (some o)) p := by
  refine ⟨hAlive, fun X hLast => ?_⟩
  simp only [World.note, Function.update_self, Option.some.injEq] at hLast
  exact absurd hLast (ho X)

theorem exec_eq_some {oracle : Oracle} {r : Res Details o} (h : exec oracle p o w = some (r, w')) :
    w.life p = .alive ∧ ∃ v, perform oracle p o w = some (r, v) ∧ w' = v.note p (some o) := by
  unfold exec at h
  split at h
  · rename_i hAlive
    obtain ⟨⟨r', v⟩, hPerform, hEq⟩ := Option.map_eq_some_iff.mp h
    cases hEq
    exact ⟨hAlive, v, hPerform, rfl⟩
  · cases h

/-- Reading the world changes nothing but the note. -/
theorem guar_read (hInv : Inv w) (hReady : Ready w p)
    (hWrite : ∀ X c, o ≠ .writeFile (stagedClaim X) c)
    (hUnlink : ∀ X, o ≠ .unlink (stagedClaim X)) :
    (contract Details).Guar p w (w.note p (some o)) ∧ Keeps p w (w.note p (some o)) :=
  ⟨guar_act (t := w.tree) hInv hReady (fun hInv' => shrinks_refl hInv' hReady.1)
      (notable_quiet hWrite hUnlink),
    { Keeps.refl hReady.1 with }⟩

/-! ## Own steps that keep -/

/-- A step of `p` that spares `p` itself keeps everything of `p`. -/
theorem keeps_of_spares {t : Tree Name (Content Details)}
    (hClaim : ∀ {m X n}, get t (Spot.claim m X).path = some n → w.look (.claim m X) = some n)
    (hChild : ∀ {m X n}, get t (Spot.child m X).path = some n → w.look (.child m X) = some n)
    (hSpares : Spares p w t) (hAlive : w.life p = .alive) :
    Keeps p w ((w.setTree t).note p (some o)) :=
  { Keeps.refl hAlive with
    claim_old := fun _ h => hClaim h
    held := by
      rintro m X - ⟨hFile, hKeeper⟩
      obtain ⟨n, hn⟩ := Option.ne_none_iff_exists'.mp hFile
      exact ⟨by simp [hClaim hn], hKeeper.imp_right fun ⟨r, hr, hGroup⟩ =>
        ⟨r, hChild hr, hGroup⟩⟩
    claim_own := fun hX h => (hSpares.claim hX).trans h
    child_own := fun hX => hSpares.child hX
    child_dead := fun _ _ h => hChild h
    staging_own := hSpares.staging
    stagingChild_own := hSpares.stagingChild }

/-- A removal only removes. -/
theorem look_of_erase {s r : Spot} {n : Node (Content Details)}
    (h : get (erase w.tree s.path) r.path = some n) : w.look r = some n := by
  simp only [get_erase, Option.ite_none_left_eq_some] at h
  exact h.2

/-- The two outcomes of an operation on the tree. -/
theorem applyTree_cases {x : Except Errno (Tree Name (Content Details))}
    {r : Except Errno Unit} (h : some (applyTree w x) = some (r, w')) :
    (∃ t, x = .ok t ∧ r = .ok () ∧ w' = w.setTree t) ∨
      ∃ e, x = .error e ∧ r = .error e ∧ w' = w := by
  cases x with
  | ok t =>
      cases h
      exact Or.inl ⟨t, rfl, rfl, rfl⟩
  | error e =>
      cases h
      exact Or.inr ⟨e, rfl, rfl, rfl⟩

variable {s : Spot}

theorem spares_erase_outer {q : ClaimOwner} (hs : s.isOuter) :
    Spares q w (erase w.tree s.path) where
  claim := fun _ => by simp [get_erase, Spot.claim_ne hs, World.look]
  child := fun _ => by simp [get_erase, Spot.child_ne hs, World.look]
  staging := by
    intro X n _ h
    simp only [get_erase, Option.ite_none_left_eq_some] at h
    exact h.2
  stagingChild := by
    intro X n _ h
    simp only [get_erase, Option.ite_none_left_eq_some] at h
    exact h.2

/-- A directory of the store. -/
def Spot.isDir : Spot → Prop
  | .root | .dir _ => True
  | _ => False

theorem Spot.isDir.isOuter (h : s.isDir) : s.isOuter := by
  cases s <;> first | exact trivial | exact absurd h id

theorem Spot.isDir.ownedBy (h : s.isDir) : s.ownedBy p w := by
  cases s <;> first | exact trivial | exact absurd h id

theorem keeps_erase_outer (hs : s.isOuter) (hAlive : w.life p = .alive) :
    Keeps p w ((w.setTree (erase w.tree s.path)).note p (some o)) :=
  keeps_of_spares look_of_erase look_of_erase (spares_erase_outer hs) hAlive

/-! ## What stays -/

/-- A holder that was read from the place of the claim `X`. -/
structure HolderOf (u : World Details) (m : ClaimMode) (X : ClaimId)
    (holder : ClaimHolder Details) : Prop where
  path : holder.path = claimPath m X
  mode : holder.mode = m
  claimId : holder.claimId = X
  published : X ∈ u.published
  owner : u.issuedTo X = some holder.owner
  sole : ∀ m', u.look (.claim m' X) ≠ none → m' = m

/-- A claim whose owner is dead and whose child record does not keep it is not held, from
then on. -/
theorem not_held_of_dead {o : ClaimOwner} (hX : w.issuedTo X = some o)
    (hDead : w.life o = .dead) (hChild : ¬ ChildHolds w m X) : ¬ Held w m X := by
  rintro ⟨-, ⟨o', ho', hAlive⟩ | hHolds⟩
  · rw [hX] at ho'
    cases ho'
    rw [hDead] at hAlive
    cases hAlive
  · exact hChild hHolds

theorem HolderOf.keeps {holder : ClaimHolder Details} (h : HolderOf w m X holder)
    (hKeeps : Keeps p w w') : HolderOf w' m X holder :=
  { h with
    published := hKeeps.mem_published h.published
    owner := hKeeps.issued h.owner
    sole := fun m' hNow => h.sole m' fun hNone => hNow (hKeeps.look_none h.published hNone) }

theorem not_held_of_keeps (hKeeps : Keeps p w w') (hX : X ∈ w.published)
    (h : ¬ Held w m X) : ¬ Held w' m X :=
  fun hHeld => h (hKeeps.held hX hHeld)

theorem life_dead (hInv : Inv w) {o : ClaimOwner} (hX : w.issuedTo X = some o)
    (h : w.life o ≠ .alive) : w.life o = .dead := by
  cases hLife : w.life o with
  | unborn => exact absurd hLife (hInv.born hX)
  | alive => exact absurd hLife h
  | dead => rfl

/-! ## Programs that keep -/

variable [DecidableEq Details]

/-- `x`, run by a ready `p` from `w`, keeps the contract and everything of `p`, and
ends ready with `Q`. -/
def Does (rounds : Nat) (p : ClaimOwner) (x : Code Details α) (w : World Details)
    (Q : α → World Details → Prop) : Prop :=
  Safe (system Details rounds) (contract Details) p x
    (fun a v => Keeps p w v ∧ Ready v p ∧ Q a v) w

theorem Does.ret {a : α} {Q : α → World Details → Prop} (hReady : Ready w p)
    (hQ : ∀ v, Inv v → Keeps p w v → Q a v) : Does rounds p (pure a) w Q := by
  intro v hInv hRely
  have hRely := hRely.2.2 hReady.1
  exact ⟨hRely.toKeeps, hReady.rely hRely, hQ v hInv hRely.toKeeps⟩

theorem Does.bind {x : Code Details α} {f : α → Code Details β} {Q : α → World Details → Prop}
    {Q' : β → World Details → Prop} (hx : Does rounds p x w Q)
    (hf : ∀ a v, Inv v → Keeps p w v → Ready v p → Q a v → Does rounds p (f a) v Q') :
    Does rounds p (x >>= f) w Q' := by
  refine Safe.bind hx ?_
  rintro a v hInv ⟨hKeeps, hReady, hQ⟩
  exact (hf a v hInv hKeeps hReady hQ).mono
    fun b u _ ⟨hKeeps', hReady', hQ'⟩ => ⟨hKeeps.trans hKeeps', hReady', hQ'⟩

variable {Q : β → World Details → Prop}

variable {k : Res Details o → Code Details β}

/-- One request, then the rest. -/
theorem does_op (hReady : Ready w p) (h : ∀ v oracle r u, Inv v → Keeps p w v → Ready v p →
      perform oracle p o v = some (r, u) →
        (contract Details).Guar p v (u.note p (some o)) ∧ Keeps p v (u.note p (some o)) ∧
          Does rounds p (k r) (u.note p (some o)) Q) : Does rounds p (ask o >>= k) w Q := by
  intro v hInv hRely oracle r u hExec
  have hRely := hRely.2.2 hReady.1
  obtain ⟨-, u, hPerform, rfl⟩ := exec_eq_some hExec
  obtain ⟨hGuar, hKeeps, hNext⟩ :=
    h v oracle r u hInv hRely.toKeeps (hReady.rely hRely) hPerform
  refine ⟨hGuar, hNext.mono ?_⟩
  rintro b x - ⟨hKeeps', hReady', hQ⟩
  exact ⟨(hRely.toKeeps.trans hKeeps).trans hKeeps', hReady', hQ⟩

/-! ## Reading -/

/-- A request that answers what it reads. -/
theorem does_read (hReady : Ready w p) (hWrite : ∀ X c, o ≠ .writeFile (stagedClaim X) c)
    (hUnlink : ∀ X, o ≠ .unlink (stagedClaim X))
    (hReads : ∀ v oracle r u, perform oracle p o v = some (r, u) → u = v)
    (h : ∀ u v oracle r, u = v.note p (some o) → Inv u → Keeps p w u → Ready u p →
      perform oracle p o v = some (r, v) → Does rounds p (k r) u Q) :
    Does rounds p (ask o >>= k) w Q := by
  refine does_op hReady ?_
  intro v oracle r u hInv hKeeps hReady' hPerform
  obtain rfl := hReads v oracle r u hPerform
  obtain ⟨hGuar, hKeeps'⟩ := guar_read hInv hReady' hWrite hUnlink
  exact ⟨hGuar, hKeeps', h _ u oracle r rfl hGuar.inv (hKeeps.trans hKeeps')
    (ready_note hReady'.1 hUnlink) hPerform⟩

/-- A request that answers a function of the world. -/
theorem does_look (f : World Details → Res Details o) (hReady : Ready w p)
    (hWrite : ∀ X c, o ≠ .writeFile (stagedClaim X) c)
    (hUnlink : ∀ X, o ≠ .unlink (stagedClaim X))
    (hPerform : ∀ oracle v, perform oracle p o v = some (f v, v))
    (hf : ∀ v, f (v.note p (some o)) = f v)
    (h : ∀ u, Inv u → Keeps p w u → Ready u p → Does rounds p (k (f u)) u Q) :
    Does rounds p (ask o >>= k) w Q := by
  refine does_read hReady hWrite hUnlink ?_ ?_
  · intro v oracle r u hr
    rw [hPerform] at hr
    cases hr
    rfl
  · rintro u v oracle r rfl hInv hKeeps hReady' hr
    rw [hPerform] at hr
    cases hr
    rw [← hf v]
    exact h _ hInv hKeeps hReady'

variable {path : ClaimPath}

theorem does_readFile {k : Except Errno (Content Details) → Code Details β} (hReady : Ready w p)
    (h : ∀ u, Inv u → Keeps p w u → Ready u p →
      Does rounds p (k (readFile u.tree path)) u Q) :
    Does rounds p (ask (.readFile path) >>= k) w Q :=
  does_look (fun v => readFile v.tree path) hReady (by simp) (by simp)
    (fun _ _ => rfl) (fun _ => rfl) h

theorem does_lstat {k : Option (Node (Content Details)) → Code Details β} (hReady : Ready w p)
    (h : ∀ u, Inv u → Keeps p w u → Ready u p → Does rounds p (k (get u.tree path)) u Q) :
    Does rounds p (ask (.lstat path) >>= k) w Q :=
  does_look (fun v => get v.tree path) hReady (by simp) (by simp)
    (fun _ _ => rfl) (fun _ => rfl) h

theorem does_readdir {k : Except Errno (List Name) → Code Details β} (hReady : Ready w p)
    (h : ∀ u, Inv u → Keeps p w u → Ready u p →
      Does rounds p (k (readdir u.tree path)) u Q) :
    Does rounds p (ask (.readdir path) >>= k) w Q :=
  does_look (fun v => readdir v.tree path) hReady (by simp) (by simp)
    (fun _ _ => rfl) (fun _ => rfl) h

theorem does_identity {record : ClaimOwner} {k : ProcessIdentityStatus → Code Details β}
    (hReady : Ready w p) (h : ∀ u r, Inv u → Keeps p w u → Ready u p →
      (r = .same ∨ u.life record ≠ .alive) → Does rounds p (k r) u Q) :
    Does rounds p (ask (.inspectProcessIdentity record) >>= k) w Q := by
  refine does_read hReady (by simp) (by simp) ?_ ?_
  · intro v oracle r u hPerform
    cases hPerform
    rfl
  · rintro u v oracle r rfl hInv hKeeps hReady' hPerform
    refine h _ r hInv hKeeps hReady' ?_
    by_cases hLife : v.life record = .alive
    · simp only [perform, hLife, Option.some.injEq, Prod.mk.injEq, and_true] at hPerform
      exact Or.inl hPerform.symm
    · exact Or.inr hLife

theorem does_group {record : ClaimOwner} {k : Bool → Code Details β} (hReady : Ready w p)
    (h : ∀ u r, Inv u → Keeps p w u → Ready u p →
      (r = false → u.group record ≠ .alive) → Does rounds p (k r) u Q) :
    Does rounds p (ask (.processGroupAlive record) >>= k) w Q := by
  refine does_read hReady (by simp) (by simp) ?_ ?_
  · intro v oracle r u hPerform
    cases hPerform
    rfl
  · rintro u v oracle r rfl hInv hKeeps hReady' hPerform
    refine h _ r hInv hKeeps hReady' ?_
    rintro rfl
    have hAnswer : (decide (v.group record = .alive) || oracle.recycled) = false :=
      congrArg Prod.fst (Option.some.inj hPerform)
    simp only [Bool.or_eq_false_iff, decide_eq_false_iff_not] at hAnswer
    exact hAnswer.1

theorem does_captureSelf {k : Except String ClaimOwner → Code Details β} (hReady : Ready w p)
    (h : ∀ u r, Inv u → Keeps p w u → Ready u p → (∀ o, r = .ok o → o = p) →
      Does rounds p (k r) u Q) : Does rounds p (ask .captureSelf >>= k) w Q := by
  refine does_read hReady (by simp) (by simp) ?_ ?_
  · intro v oracle r u hPerform
    cases hPerform
    rfl
  · rintro u v oracle r rfl hInv hKeeps hReady' hPerform
    refine h _ r hInv hKeeps hReady' ?_
    rintro o rfl
    have hAnswer := congrArg Prod.fst (Option.some.inj hPerform)
    dsimp only at hAnswer
    split at hAnswer
    · cases hAnswer
    · exact (Except.ok.inj hAnswer).symm

/-- What a reading says about the file it read. -/
def Reads (u : World Details) (path : ClaimPath) (reading : Reading (Content Details)) : Prop :=
  (reading = .absent → get u.tree path = none) ∧
    ∀ c, reading = .found c → get u.tree path = some (.file c)

theorem does_readRecord {what : String} {k : Reading (Content Details) → Code Details β}
    (hReady : Ready w p) (h : ∀ u reading, Inv u → Keeps p w u → Ready u p → Reads u path reading →
      Does rounds p (k reading) u Q) : Does rounds p (readRecord path what >>= k) w Q := by
  unfold readRecord
  rw [bind_assoc]
  refine does_readFile hReady ?_
  intro u hInv hKeeps hReady'
  cases hRead : readFile u.tree path with
  | ok content =>
      refine h u _ hInv hKeeps hReady' ⟨nofun, ?_⟩
      rintro c ⟨⟩
      exact readFile_ok.mp hRead
  | error e =>
      cases e with
      | ENOENT =>
          exact h u _ hInv hKeeps hReady'
            ⟨fun _ => readFile_error_ENOENT.mp hRead, nofun⟩
      | _ => exact h u _ hInv hKeeps hReady' ⟨nofun, nofun⟩

/-- What a reading of a claim's child record says. -/
def ReadsChild (u : World Details) (m : ClaimMode) (X : ClaimId)
    (reading : Reading (Option ClaimOwner)) : Prop :=
  (reading = .absent → u.look (.child m X) = none) ∧
    ∀ r, reading = .found r → u.look (.child m X) = some (.file (.child r))

theorem does_readChild {k : Reading (Option ClaimOwner) → Code Details β} (hReady : Ready w p)
    (h : ∀ u reading, Inv u → Keeps p w u → Ready u p → ReadsChild u m X reading →
      Does rounds p (k reading) u Q) : Does rounds p (readChild (claimPath m X) >>= k) w Q := by
  unfold readChild
  rw [bind_assoc]
  refine does_readRecord hReady ?_
  intro u reading hInv hKeeps hReady' hReads
  rw [childPath_claim] at hReads
  match reading, hReads with
  | .absent, hReads =>
      exact h u _ hInv hKeeps hReady' ⟨fun _ => hReads.1 rfl, nofun⟩
  | .unreadable reason, _ =>
      exact h u _ hInv hKeeps hReady' ⟨nofun, nofun⟩
  | .found (.child record), hReads =>
      refine h u _ hInv hKeeps hReady' ⟨nofun, ?_⟩
      rintro r ⟨⟩
      exact hReads.2 _ rfl
  | .found (.claim ..), hReads =>
      -- no claim is ever written where a child record stands
      obtain ⟨r, hr, -⟩ := hInv.child_file (hReads.2 _ rfl)
      cases hr

theorem does_readClaim {k : Reading (ClaimHolder Details) → Code Details β} (hReady : Ready w p)
    (hAbsent : ∀ u, Inv u → Keeps p w u → Ready u p →
      (X ∈ w.published → u.look (.claim m X) = none) → Does rounds p (k .absent) u Q)
    (hUnreadable : ∀ u reason, Inv u → Keeps p w u → Ready u p →
      Does rounds p (k (.unreadable reason)) u Q)
    (hFound : ∀ u holder, Inv u → Keeps p w u → Ready u p → HolderOf u m X holder →
      Does rounds p (k (.found holder)) u Q) :
    Does rounds p (readClaim (claimPath m X) m >>= k) w Q := by
  unfold readClaim
  rw [bind_assoc]
  refine does_readRecord hReady ?_
  intro u reading hInv hKeeps hReady' hReads
  match reading, hReads with
  | .absent, hReads => exact hAbsent u hInv hKeeps hReady' fun _ => hReads.1 rfl
  | .unreadable reason, _ => exact hUnreadable u reason hInv hKeeps hReady'
  | .found (.child _), hReads => exact hUnreadable u _ hInv hKeeps hReady'
  | .found (.claim claimId _ owner startedAt details), hReads =>
      obtain ⟨hMem, o, s, d, ho, hn⟩ := hInv.claim_file (m := m) (X := X) (hReads.2 _ rfl)
      cases hn
      have hThere : u.look (.claim m X) ≠ none := by
        simp [World.look, hReads.2 _ rfl, Spot.path]
      have hHolder : ∀ child declared, HolderOf u m X
          ⟨claimPath m X, X, m, owner, startedAt, details, child, declared⟩ :=
        fun _ _ => ⟨rfl, rfl, rfl, hMem, ho, fun m' hNow =>
          hInv.one_mode hNow hThere⟩
      simp only [bind_assoc]
      refine does_readChild hReady' ?_
      intro v reading hInv' hKeeps' hReady'' _
      have hKeeps'' := hKeeps.trans hKeeps'
      cases reading with
      | absent => exact hFound v _ hInv' hKeeps'' hReady'' ((hHolder _ _).keeps hKeeps')
      | unreadable reason => exact hUnreadable v reason hInv' hKeeps'' hReady''
      | found record => exact hFound v _ hInv' hKeeps'' hReady'' ((hHolder _ _).keeps hKeeps')

/-! ## Liveness -/

theorem does_childLiveness {k : Option Liveness → Code Details β} {o : ClaimOwner}
    (hReady : Ready w p) (hX : w.issuedTo X = some o) (hDead : w.life o = .dead)
    (h : ∀ u r, Inv u → Keeps p w u → Ready u p →
      (r = none ∨ r = some .dead → ¬ Held u m X) → Does rounds p (k r) u Q) :
    Does rounds p (childLiveness (claimPath m X) >>= k) w Q := by
  unfold childLiveness
  rw [bind_assoc]
  refine does_readChild hReady ?_
  intro u reading hInv hKeeps hReady' hReads
  have hXu := hKeeps.issued hX
  have hDeadu := hKeeps.life hDead
  match reading, hReads with
  | .absent, hReads =>
      refine h u _ hInv hKeeps hReady' fun _ => not_held_of_dead hXu hDeadu ?_
      rintro ⟨r, hr, -⟩
      rw [hReads.1 rfl] at hr
      cases hr
  | .unreadable _, _ => exact h u _ hInv hKeeps hReady' fun h => by simp at h
  | .found none, _ => exact h u _ hInv hKeeps hReady' fun h => by simp at h
  | .found (some record), hReads =>
      have hChild := hReads.2 _ rfl
      obtain ⟨r, hr, hRecord⟩ := hInv.child_file hChild
      cases hr
      obtain ⟨hBorn, hPid⟩ := hRecord record rfl
      simp only [bind_assoc]
      refine does_identity hReady' ?_
      intro v status hInv' hKeeps' hReady'' _
      have hKeeps'' := hKeeps.trans hKeeps'
      cases status with
      | gone =>
          have hNot : ¬ record.pid ≤ 1 := by omega
          simp only [hNot, if_false, bind_assoc]
          refine does_group hReady'' ?_
          intro x alive hInv'' hKeepsx hReadyx hGroup
          have hKeepsAll := hKeeps''.trans hKeepsx
          cases alive with
          | true => exact h x _ hInv'' hKeepsAll hReadyx fun h => by simp at h
          | false =>
              refine h x _ hInv'' hKeepsAll hReadyx fun _ => ?_
              refine not_held_of_dead (hKeepsAll.issued hX) (hKeepsAll.life hDead) ?_
              rintro ⟨r', hr', hAlive⟩
              -- the record can only have disappeared since it was read
              have hOld := (hKeeps'.trans hKeepsx).child_dead hXu hDeadu hr'
              rw [hChild] at hOld
              cases hOld
              exact hGroup rfl (hAlive record rfl)
      | _ => exact h v _ hInv' hKeeps'' hReady'' fun h => by simp at h

theorem does_claimLiveness {holder : ClaimHolder Details} {k : Liveness → Code Details β}
    (hReady : Ready w p) (hHolder : HolderOf w m X holder)
    (h : ∀ u r, Inv u → Keeps p w u → Ready u p → (r = .dead → ¬ Held u m X) →
      Does rounds p (k r) u Q) : Does rounds p (claimLiveness holder >>= k) w Q := by
  unfold claimLiveness
  rw [bind_assoc]
  refine does_identity hReady ?_
  intro u status hInv hKeeps hReady' hStatus
  have hOwner := hKeeps.issued hHolder.owner
  cases status with
  | same => exact h u _ hInv hKeeps hReady' (by simp)
  | unknown => exact h u _ hInv hKeeps hReady' (by simp)
  | different | gone =>
      have hLife : u.life holder.owner ≠ .alive := hStatus.resolve_left (by simp)
      dsimp only
      rw [hHolder.path, bind_assoc]
      refine does_childLiveness hReady' hOwner (life_dead hInv hOwner hLife) ?_
      intro v r hInv' hKeeps' hReady'' hNot
      have hKeeps'' := hKeeps.trans hKeeps'
      cases r with
      | none => exact h v _ hInv' hKeeps'' hReady'' fun _ => hNot (Or.inl rfl)
      | some liveness =>
          refine h v liveness hInv' hKeeps'' hReady'' ?_
          rintro rfl
          exact hNot (Or.inr rfl)

end Stim.OwnershipClaim
