import Stim.Core.OwnershipClaim.System

/-!
# The invariant of a claim set

Two facts carry mutual exclusion.

* A claim file is removed by another process only when nothing holds the claim
  any more (`Held`), and an owner that died writes nothing, so "not held" is
  permanent.
* A claim is answered as `acquired` only when every held claim of the other
  mode was published later (`Inv.order`).  Two acquired claims of different
  modes would each have to be published before the other.

The exclusive directory itself holds at most one claim, because a staged
directory replaces only an empty one.  That argument needs the staged directory
to carry its claim (`Inv.armed`).  The one process that may take the claim out of
a foreign staging directory is inside `clearFreeClaimSet`; until it has removed
the emptied directory it must stay alive, with its own exclusive claim in place.
-/

namespace Stim.OwnershipClaim

open Interleaving FileTree

/-! ## The places of the store -/

/-- The places whose content matters. -/
inductive Spot where
  | root
  | dir (mode : ClaimMode)
  | claim (mode : ClaimMode) (id : ClaimId)
  | child (mode : ClaimMode) (id : ClaimId)
  | staging (id : ClaimId)
  | staged (id : ClaimId)
  | stagingChild (id : ClaimId)
  deriving DecidableEq

/-- The path of a place. -/
def Spot.path : Spot → ClaimPath
  | .root => OwnershipClaim.root
  | .dir mode => claimDir mode
  | .claim mode id => claimPath mode id
  | .child mode id => claimDir mode ++ [.child id]
  | .staging id => stagingPath id
  | .staged id => stagedClaim id
  | .stagingChild id => stagingChildPath id

/-- The place a path names. -/
def Spot.ofPath : ClaimPath → Option Spot
  | [.root] => some .root
  | [.root, .exclusive] => some (.dir .exclusive)
  | [.root, .shared] => some (.dir .shared)
  | [.root, .exclusive, .claim id] => some (.claim .exclusive id)
  | [.root, .shared, .claim id] => some (.claim .shared id)
  | [.root, .exclusive, .child id] => some (.child .exclusive id)
  | [.root, .shared, .child id] => some (.child .shared id)
  | [.root, .staging id] => some (.staging id)
  | [.root, .staging id, .claim _] => some (.staged id)
  | [.root, .stagingChild id] => some (.stagingChild id)
  | _ => none

theorem Spot.ofPath_path (s : Spot) : Spot.ofPath s.path = some s := by
  cases s with
  | dir m => cases m <;> rfl
  | claim m _ => cases m <;> rfl
  | child m _ => cases m <;> rfl
  | _ => rfl

@[simp] theorem Spot.path_inj {a b : Spot} : a.path = b.path ↔ a = b := by
  refine ⟨fun h => ?_, fun h => h ▸ rfl⟩
  have hOf := congrArg Spot.ofPath h
  rw [ofPath_path, ofPath_path] at hOf
  exact Option.some.inj hOf

theorem claimDir_ne_nil (mode : ClaimMode) : claimDir mode ≠ [] := by
  cases mode <;> simp [claimDir, exclusiveClaimDir, sharedClaimDir]

theorem Spot.path_ne_nil (s : Spot) : s.path ≠ [] := by
  cases s <;> simp [path, OwnershipClaim.root, claimPath, claimDir_ne_nil, stagingPath,
    stagedClaim, stagingChildPath]

theorem childPath_claim (mode : ClaimMode) (id : ClaimId) :
    childPath (claimPath mode id) = (Spot.child mode id).path := by
  cases mode <;> rfl

/-- What lies below a staging directory is no other place. -/
theorem Spot.path_eq_below {s : Spot} {X : ClaimId} {n : Name} {rest : List Name}
    (h : stagingPath X ++ n :: rest = s.path) : s = .staged X ∧ n = .claim X ∧ rest = [] := by
  cases s with
  | dir m => cases m <;> simp [path, claimDir, stagingPath, exclusiveClaimDir,
      sharedClaimDir] at h
  | claim m _ => cases m <;> simp [path, claimPath, claimDir, stagingPath,
      exclusiveClaimDir, sharedClaimDir] at h
  | child m _ => cases m <;> simp [path, claimDir, stagingPath, exclusiveClaimDir,
      sharedClaimDir] at h
  | staged Y =>
      simp only [path, stagedClaim, stagingPath, List.cons_append, List.nil_append,
        List.cons.injEq, Name.staging.injEq, true_and] at h
      obtain ⟨rfl, rfl, rfl⟩ := h
      exact ⟨rfl, rfl, rfl⟩
  | _ => simp [path, OwnershipClaim.root, stagingPath, stagingChildPath] at h

section Worlds

variable {Details : Type}

/-- What a place holds. -/
def World.look (w : World Details) (s : Spot) : Option (Node (Content Details)) :=
  get w.tree s.path

/-- The process that drew the claim's id is alive. -/
def OwnerAlive (w : World Details) (X : ClaimId) : Prop :=
  ∃ o, w.issuedTo X = some o ∧ w.life o = .alive

/-- The claim's child record keeps it: it names no process yet, or one whose
process group has a living member. -/
def ChildHolds (w : World Details) (m : ClaimMode) (X : ClaimId) : Prop :=
  ∃ r, w.look (.child m X) = some (.file (.child r)) ∧
    ∀ c, r = some c → w.group c = .alive

/-- The claim is in place and its owner or its child keeps it. -/
def Held (w : World Details) (m : ClaimMode) (X : ClaimId) : Prop :=
  w.look (.claim m X) ≠ none ∧ (OwnerAlive w X ∨ ChildHolds w m X)

/-- `X` was published before `Y`. -/
def Precedes (w : World Details) (X Y : ClaimId) : Prop :=
  w.published.idxOf X < w.published.idxOf Y

/-- `q` has just taken the claim out of the staging directory of `X` and holds
an exclusive claim itself. -/
def Sweeping (w : World Details) (q : ClaimOwner) (X : ClaimId) : Prop :=
  w.life q = .alive ∧ w.last q = some (.unlink (stagedClaim X)) ∧
    ∃ h ∈ (w.memory q).acquired, h.mode = .exclusive

/-- A process has or waits for a claim. -/
def Memory.Has (m : Memory Details) (h : ClaimHandle Details) : Prop :=
  h ∈ m.acquired ∨ h ∈ m.pending

/-- The claim whose owner or spawned child lives. -/
def Kept (w : World Details) (X : ClaimId) : Prop :=
  OwnerAlive w X ∨ ∃ c, w.spawned X = some c ∧ w.group c = .alive

/-- `p` has written its staged exclusive claim `X`.  The staging directory is gone,
or it holds the claim, or a process that holds an exclusive claim itself has just
taken the claim out. -/
def Armed (w : World Details) (p : ClaimOwner) (X : ClaimId) (c : Content Details) : Prop :=
  w.issuedTo X = some p ∧ X ∉ w.published ∧ (∃ s d, c = .claim X .exclusive p s d) ∧
    (w.look (.staging X) = none ∨ w.look (.staging X) = some .dir ∧
      (w.look (.staged X) = some (.file c) ∨
        w.look (.staged X) = none ∧ ∃ q, Sweeping w q X))

/-- Nothing holds the claim of this holder, and its file is nowhere else. -/
def Buried (w : World Details) (h : ClaimHolder Details) : Prop :=
  h.claimId ∈ w.published ∧ ¬ Held w h.mode h.claimId ∧
    ∀ m, w.look (.claim m h.claimId) ≠ none → m = h.mode

structure Inv (w : World Details) : Prop where
  unborn : ∀ {p}, w.life p = .unborn →
    w.memory p = Memory.empty ∧ w.last p = none ∧ ∀ X, w.issuedTo X ≠ some p
  parented : Parented w.tree
  issued : ∀ {X}, X ∈ w.published → w.issuedTo X ≠ none
  nodup : w.published.Nodup
  claim_file : ∀ {m X n}, w.look (.claim m X) = some n →
    X ∈ w.published ∧ ∃ o s d, w.issuedTo X = some o ∧ n = .file (.claim X m o s d)
  child_file : ∀ {m X n}, w.look (.child m X) = some n →
    ∃ r, n = .file (.child r) ∧ ∀ c, r = some c → w.group c ≠ .unborn ∧ 1 < c.pid
  child_claim : ∀ {m X}, w.look (.claim m X) = none → w.look (.child m X) = none
  one_mode : ∀ {m m' X}, w.look (.claim m X) ≠ none → w.look (.claim m' X) ≠ none → m = m'
  one_exclusive : ∀ {X Y}, w.look (.claim .exclusive X) ≠ none →
    w.look (.claim .exclusive Y) ≠ none → X = Y
  staging_issued : ∀ {X}, w.look (.staging X) ≠ none → w.issuedTo X ≠ none
  below_staging : ∀ {X n rest node}, get w.tree (stagingPath X ++ n :: rest) = some node →
    n = .claim X ∧ rest = [] ∧ node ≠ .dir
  stagingChild_file : ∀ {X}, w.look (.stagingChild X) ≠ some .dir
  /-- A process about to rename its staging directory onto `exclusive`. -/
  armed : ∀ {p X c}, w.life p = .alive → w.last p = some (.writeFile (stagedClaim X) c) →
    Armed w p X c
  foreign : ∀ {p X}, w.life p = .alive → w.last p = some (.unlink (stagedClaim X)) →
    w.issuedTo X = some p ∨ (w.memory p).clearing = true
  handle : ∀ {p h}, w.life p = .alive → (w.memory p).Has h →
    h.path = claimPath h.mode h.claimId ∧ w.issuedTo h.claimId = some p ∧
      w.look (.claim h.mode h.claimId) ≠ none
  acquired_granted : ∀ {p h}, h ∈ (w.memory p).acquired → h.claimId ∈ w.granted
  pending_exclusive : ∀ {p h}, h ∈ (w.memory p).pending → h.mode = .exclusive
  granted_published : ∀ {X}, X ∈ w.granted → X ∈ w.published
  order : ∀ {m m' X Y}, X ∈ w.granted → Held w m X → Held w m' Y → m ≠ m' →
    Precedes w X Y
  marked : ∀ {X}, w.marked X = true → Kept w X →
    ∃ m r, w.look (.claim m X) ≠ none ∧ w.look (.child m X) = some (.file (.child r)) ∧
      (r = none ∨ r = w.spawned X)
  marked_published : ∀ {X}, w.marked X = true → X ∈ w.published
  marked_granted : ∀ {X}, w.marked X = true → w.look (.claim .shared X) ≠ none →
    X ∈ w.granted
  spawned_born : ∀ {X c}, w.spawned X = some c → w.group c ≠ .unborn ∧ 1 < c.pid
  spawned_leader : ∀ {X c}, w.spawned X = some c → w.life c = .alive → w.group c = .alive
  buried : ∀ {p h}, h ∈ (w.memory p).buried → Buried w h

/-- What time does to the claims published so far: they only disappear. -/
structure Ages (w w' : World Details) : Prop where
  published : w.published <+: w'.published
  claim_old : ∀ {m X n}, X ∈ w.published → w'.look (.claim m X) = some n →
    w.look (.claim m X) = some n
  held : ∀ {m X}, X ∈ w.published → Held w' m X → Held w m X

theorem Ages.refl (w : World Details) : Ages w w :=
  ⟨List.prefix_rfl, fun _ h => h, fun _ h => h⟩

variable {u v w : World Details}

theorem Ages.trans (h : Ages u v) (h' : Ages v w) : Ages u w where
  published := h.published.trans h'.published
  claim_old := fun hX hw => h.claim_old hX (h'.claim_old (h.published.subset hX) hw)
  held := fun hX hw => h.held hX (h'.held (h.published.subset hX) hw)

theorem Ages.look_none {w w' : World Details} {m : ClaimMode} {X : ClaimId} (h : Ages w w')
    (hX : X ∈ w.published) (hNone : w.look (.claim m X) = none) : w'.look (.claim m X) = none := by
  by_contra hSome
  obtain ⟨n, hn⟩ := Option.ne_none_iff_exists'.mp hSome
  rw [h.claim_old hX hn] at hNone
  cases hNone

theorem Buried.ages {w w' : World Details} {h : ClaimHolder Details} (hBuried : Buried w h)
    (hAges : Ages w w') : Buried w' h :=
  ⟨hAges.published.subset hBuried.1, fun hNow => hBuried.2.1 (hAges.held hBuried.1 hNow),
    fun m hNow => hBuried.2.2 m fun hNone => hNow (hAges.look_none hBuried.1 hNone)⟩

/-- What stays of a live process's claims and knowledge when others act, and when it
only inspects and reaps itself. -/
structure Keeps (p : ClaimOwner) (w w' : World Details) : Prop extends Ages w w' where
  alive : w'.life p = .alive
  memory : w'.memory p = w.memory p
  issued : ∀ {X o}, w.issuedTo X = some o → w'.issuedTo X = some o
  unpublished : ∀ {X}, w.issuedTo X = some p → X ∈ w'.published → X ∈ w.published
  claim_own : ∀ {m X n}, w.issuedTo X = some p → w.look (.claim m X) = some n →
    w'.look (.claim m X) = some n
  child_own : ∀ {m X}, w.issuedTo X = some p →
    w'.look (.child m X) = w.look (.child m X)
  child_dead : ∀ {m X o n}, w.issuedTo X = some o → w.life o = .dead →
    w'.look (.child m X) = some n → w.look (.child m X) = some n
  staging_own : ∀ {X n}, w.issuedTo X = some p →
    w'.look (.staging X) = some n → w.look (.staging X) = some n
  stagingChild_own : ∀ {X n}, w.issuedTo X = some p →
    w'.look (.stagingChild X) = some n → w.look (.stagingChild X) = some n
  life : ∀ {o}, w.life o = .dead → w'.life o = .dead
  group_dead : ∀ {c}, w.group c = .dead → w'.group c = .dead
  marked_own : ∀ {X}, w.issuedTo X = some p → w'.marked X = w.marked X
  spawned_own : ∀ {X}, w.issuedTo X = some p → w'.spawned X = w.spawned X
  granted : ∀ {X}, X ∈ w.granted → X ∈ w'.granted

/-- What no step of another process takes from a live process `p`. -/
structure Rely (p : ClaimOwner) (w w' : World Details) : Prop extends Keeps p w w' where
  last : w'.last p = w.last p

variable {p : ClaimOwner}

theorem Keeps.refl {w : World Details} (hp : w.life p = .alive) :
    Keeps p w w where
  toAges := Ages.refl w
  alive := hp
  memory := rfl
  issued := id
  unpublished := fun _ h => h
  claim_own := fun _ h => h
  child_own := fun _ => rfl
  child_dead := fun _ _ h => h
  staging_own := fun _ h => h
  stagingChild_own := fun _ h => h
  life := id
  group_dead := id
  marked_own := fun _ => rfl
  spawned_own := fun _ => rfl
  granted := id

theorem Keeps.trans (h : Keeps p u v) (h' : Keeps p v w) : Keeps p u w where
  toAges := h.toAges.trans h'.toAges
  alive := h'.alive
  memory := h'.memory.trans h.memory
  issued := fun hX => h'.issued (h.issued hX)
  unpublished := fun hX hw => h.unpublished hX (h'.unpublished (h.issued hX) hw)
  claim_own := fun hX hu => h'.claim_own (h.issued hX) (h.claim_own hX hu)
  child_own := fun hX => (h'.child_own (h.issued hX)).trans (h.child_own hX)
  child_dead := fun hX ho hw =>
    h.child_dead hX ho (h'.child_dead (h.issued hX) (h.life ho) hw)
  staging_own := fun hX hw => h.staging_own hX (h'.staging_own (h.issued hX) hw)
  stagingChild_own := fun hX hw =>
    h.stagingChild_own hX (h'.stagingChild_own (h.issued hX) hw)
  life := fun ho => h'.life (h.life ho)
  group_dead := fun hc => h'.group_dead (h.group_dead hc)
  marked_own := fun hX => (h'.marked_own (h.issued hX)).trans (h.marked_own hX)
  spawned_own := fun hX => (h'.spawned_own (h.issued hX)).trans (h.spawned_own hX)
  granted := fun hX => h'.granted (h.granted hX)

theorem Rely.refl {w : World Details} (hp : w.life p = .alive) : Rely p w w :=
  { Keeps.refl hp with last := rfl }

theorem Rely.trans (h : Rely p u v) (h' : Rely p v w) : Rely p u w :=
  { h.toKeeps.trans h'.toKeeps with last := h'.last.trans h.last }

/-- The contract every process keeps and relies on. -/
def contract (Details : Type) : Contract ClaimOwner (World Details) where
  inv := Inv
  rely := fun p w w' =>
    w'.memory p = w.memory p ∧ Ages w w' ∧ (w.life p = .alive → Rely p w w')
  rely_refl := fun _ w => ⟨rfl, Ages.refl w, fun hp => Rely.refl hp⟩
  rely_trans := fun huv hvw =>
    ⟨hvw.1.trans huv.1, huv.2.1.trans hvw.2.1,
      fun hp => (huv.2.2 hp).trans (hvw.2.2 (huv.2.2 hp).alive)⟩

/-- A step of any process ages the world. -/
theorem guar_ages {w w' : World Details} (h : (contract Details).Guar p w w') : Ages w w' := by
  have hNe : (⟨p.pid + 1, p.processToken⟩ : ClaimOwner) ≠ p := by
    intro hEq
    have := congrArg ClaimOwner.pid hEq
    simp at this
  exact (h.others _ hNe).2.1

end Worlds

end Stim.OwnershipClaim
