import Mathlib.Data.List.Induction
import Stim.Cli.EngineStore

/-!
# What the engine store keeps

Every operation leaves the trees that the records and the claims name in the store, and every
flip that was not explicit goes up: above the version that was current when it was decided,
and above every version that was recorded bad then.
-/

namespace Stim.Cli

/-! ## Unattended decisions -/

variable {a b : String}

/-- Between well-formed versions, to sort before is to have a key that is not greater. -/
theorem sortsBefore_iff (ha : wellFormed a = true) (hb : wellFormed b = true) :
    sortsBefore a b = (VersionKey.order (versionKey a) (versionKey b)).isLE := by
  rw [sortsBefore, compareVersions_of_wellFormed ha hb]
  cases VersionKey.order (versionKey a) (versionKey b) with
  | lt => rfl
  | eq => rfl
  | gt => rfl

theorem map_mergeSort_versionKey {versions : List String}
    (h : ∀ v ∈ versions, wellFormed v = true) :
    (versions.mergeSort sortsBefore).map versionKey =
      (versions.map versionKey).mergeSort fun a b => (VersionKey.order a b).isLE := by
  refine List.map_mergeSort ?_
  intro a ha b hb
  exact sortsBefore_iff (h a ha) (h b hb)

theorem versionKey_trans (a b c : VersionKey) (hab : (VersionKey.order a b).isLE = true)
    (hbc : (VersionKey.order b c).isLE = true) : (VersionKey.order a c).isLE = true :=
  Std.TransCmp.isLE_trans hab hbc

theorem versionKey_total (a b : VersionKey) :
    ((VersionKey.order a b).isLE || (VersionKey.order b a).isLE) = true := by
  have hswap : VersionKey.order a b = (VersionKey.order b a).swap := Std.OrientedCmp.eq_swap
  rw [hswap]
  cases VersionKey.order b a with
  | lt => rfl
  | eq => rfl
  | gt => rfl

variable {toSorted : VersionSort}

variable {bad : List BadBuild}

/-- The sort ends at a version whose key is greatest. -/
theorem le_newestBad {worst : String} (hworst : newestBad toSorted bad = some worst)
    (hbad : ∀ each ∈ bad, wellFormed each.version = true) {each : BadBuild} (h : each ∈ bad) :
    (VersionKey.order (versionKey each.version) (versionKey worst)).isLE = true := by
  have hwell : ∀ v ∈ bad.map BadBuild.version, wellFormed v = true := by
    simpa using hbad
  have hsorted := List.pairwise_mergeSort versionKey_trans versionKey_total
    ((bad.map BadBuild.version).map versionKey)
  rw [← map_mergeSort_versionKey hwell, List.pairwise_map] at hsorted
  rw [newestBad, toSorted.sorted _ hwell] at hworst
  obtain ⟨front, hfront⟩ := List.getLast?_eq_some_iff.mp hworst
  have hmem : each.version ∈ front ++ [worst] := by
    rw [← hfront, List.mem_mergeSort]
    exact List.mem_map_of_mem h
  rw [hfront, List.pairwise_append] at hsorted
  rcases List.mem_append.mp hmem with hin | hin
  · exact hsorted.2.2 _ hin _ List.mem_cons_self
  · have hself : VersionKey.order (versionKey worst) (versionKey worst) = .eq :=
      Std.ReflCmp.compare_self
    rw [List.mem_singleton.mp hin, hself]
    rfl

theorem newestBad_mem {worst : String} (h : newestBad toSorted bad = some worst) :
    ∃ each ∈ bad, each.version = worst := by
  have hmem := List.mem_of_getLast? h
  rw [(toSorted.perm _).mem_iff] at hmem
  exact List.mem_map.mp hmem

variable (toSorted) in
theorem newestBad_isSome {each : BadBuild} (h : each ∈ bad) :
    ∃ worst, newestBad toSorted bad = some worst := by
  have hlast : newestBad toSorted bad ≠ none := by
    intro hnone
    have hperm := toSorted.perm (bad.map BadBuild.version)
    rw [List.getLast?_eq_none_iff.mp hnone] at hperm
    exact List.ne_nil_of_mem h (List.map_eq_nil_iff.mp hperm.nil_eq.symm)
  exact Option.ne_none_iff_exists'.mp hlast

theorem wellFormed_ne_empty {version : String} (h : wellFormed version = true) : version ≠ "" := by
  rintro rfl
  revert h
  decide

/-- A well-formed version that is not at most another is above it. -/
theorem positive_of_not_atMost {missing : Sign} (ha : wellFormed a = true)
    (hb : wellFormed b = true) (h : atMost (compareVersions a b) missing = false) :
    VersionKey.order (versionKey a) (versionKey b) = .gt := by
  rw [compareVersions_of_wellFormed ha hb] at h
  cases ho : VersionKey.order (versionKey a) (versionKey b) with
  | lt => simp [ho, atMost, Sign.ofOrdering] at h
  | eq => simp [ho, atMost, Sign.ofOrdering] at h
  | gt => rfl

/-- What an unattended promotion passes. -/
theorem promotionRefusal_none {target : String} {current : Option Current} {exactRequest : Bool}
    (h : promotionRefusal toSorted target current bad false exactRequest = none) :
    ∃ c, current = some c ∧ c.pinned = false ∧
      ((newestBad toSorted bad).any fun worst =>
        worst != "" && atMost (compareVersions target worst) .positive) = false ∧
      atMost (compareVersions target c.version) .zero = false := by
  cases current with
  | none => simp [promotionRefusal] at h
  | some c =>
      refine ⟨c, rfl, ?_⟩
      simp only [promotionRefusal, Bool.false_eq_true, if_false] at h
      grind

/-- The decision of a promotion that was not explicit: the engine was not pinned, and the
target was above its version and above every version recorded bad. -/
structure Decision.Rises (d : Decision) (from' : Current) : Prop where
  current : d.current = some from'
  unpinned : from'.pinned = false
  newer : compareVersions d.target from'.version = some .positive ∨
    compareVersions d.target from'.version = some .nan
  newer_of_wellFormed : wellFormed d.target = true → wellFormed from'.version = true →
    compareVersions d.target from'.version = some .positive
  aboveBad : wellFormed d.target = true → (∀ each ∈ d.bad, wellFormed each.version = true) →
    ∀ each ∈ d.bad, compareVersions d.target each.version = some .positive

theorem rises_of_promotionRefusal {d : Decision} {exactRequest : Bool}
    (h : promotionRefusal toSorted d.target d.current d.bad false exactRequest = none) :
    ∃ c, d.Rises c := by
  obtain ⟨c, hc, hpinned, hbad, hnewer⟩ := promotionRefusal_none h
  refine ⟨c, hc, hpinned, ?_, ?_, ?_⟩
  · cases hsign : compareVersions d.target c.version with
    | none => simp [hsign, atMost] at hnewer
    | some sign =>
        cases sign with
        | negative => simp [hsign, atMost] at hnewer
        | zero => simp [hsign, atMost] at hnewer
        | positive => exact Or.inl rfl
        | nan => exact Or.inr rfl
  · intro ht hcv
    rw [compareVersions_of_wellFormed ht hcv, positive_of_not_atMost ht hcv hnewer]
    rfl
  · intro ht hwell each heach
    obtain ⟨worst, hworst⟩ := newestBad_isSome toSorted heach
    obtain ⟨source, hsource, hversion⟩ := newestBad_mem hworst
    have hw : wellFormed worst = true := hversion ▸ hwell source hsource
    have habove : atMost (compareVersions d.target worst) .positive = false := by
      simpa [hworst, wellFormed_ne_empty hw] using hbad
    have hgt := positive_of_not_atMost ht hw habove
    have hle := le_newestBad hworst hwell heach
    have hstrict : VersionKey.order (versionKey d.target) (versionKey each.version) = .gt :=
      Std.TransCmp.gt_of_gt_of_isGE hgt (by
        have hswap : VersionKey.order (versionKey each.version) (versionKey worst) =
            (VersionKey.order (versionKey worst) (versionKey each.version)).swap :=
          Std.OrientedCmp.eq_swap
        rw [hswap] at hle
        simpa using hle)
    rw [compareVersions_of_wellFormed ht (hwell each heach), hstrict]
    rfl

/-! ## What every operation keeps -/

/-- A decision that `promotionRefusal` let pass. -/
def Decision.Passed (d : Decision) : Prop :=
  ∃ toSorted exactRequest,
    promotionRefusal toSorted d.target d.current d.bad d.explicit exactRequest = none

structure StoreInv (s : Store) : Prop where
  named : ∀ dir ∈ s.named, (s.trees dir).isSome = true
  stagedOn : ∀ d, s.stagedOn = some d → d.Passed
  flips : ∀ d ∈ s.flips, d.Passed

/-- The store `s` after an operation that started in `before`. -/
structure Keeps (reads : Reads) (before s : Store) : Prop where
  inv : StoreInv s
  claimed : ∀ dir ∈ claimedEntries reads.claimsAtCollect,
    (before.trees dir).isSome = true → (s.trees dir).isSome = true

variable {reads : Reads} {before s : Store}

theorem Keeps.refl (h : StoreInv s) : Keeps reads s s :=
  ⟨h, fun _ _ hdir => hdir⟩

/-- A change of the records only. -/
theorem Keeps.of_trees_eq {s' : Store} (h : Keeps reads before s) (htrees : s'.trees = s.trees)
    (hinv : StoreInv s') : Keeps reads before s' :=
  ⟨hinv, fun dir hdir hbefore => htrees ▸ h.claimed dir hdir hbefore⟩

theorem Keeps.collectStore (h : Keeps reads before s) :
    Keeps reads before (Cli.collectStore reads s) := by
  have hkeep : ∀ dir ∈ keptEntries s reads.claimsAtCollect, (s.trees dir).isSome = true →
      ((Cli.collectStore reads s).trees dir).isSome = true := by
    intro dir hdir htree
    simpa [Cli.collectStore, hdir] using htree
  refine ⟨⟨?_, h.inv.stagedOn, h.inv.flips⟩, ?_⟩
  · intro dir hdir
    exact hkeep dir (List.mem_append_left _ hdir) (h.inv.named dir hdir)
  · intro dir hdir hbefore
    exact hkeep dir (List.mem_append_right _ hdir) (h.claimed dir hdir hbefore)

theorem Keeps.sealTree (h : Keeps reads before s) (build : String) (tree : Tree) :
    Keeps reads before (Cli.sealTree build tree s) := by
  have hgrow : ∀ dir, (s.trees dir).isSome = true →
      ((Cli.sealTree build tree s).trees dir).isSome = true := by
    intro dir hdir
    by_cases heq : dir = build
    · simp [Cli.sealTree, heq]
    · simpa [Cli.sealTree, heq] using hdir
  refine ⟨⟨?_, h.inv.stagedOn, h.inv.flips⟩, ?_⟩
  · intro dir hdir
    exact hgrow dir (h.inv.named dir hdir)
  · intro dir hdir hbefore
    exact hgrow dir (h.claimed dir hdir hbefore)

theorem Keeps.writeState (h : Keeps reads before s) (state : StoreState) :
    Keeps reads before (s.writeState state) :=
  h.of_trees_eq rfl ⟨h.inv.named, h.inv.stagedOn, h.inv.flips⟩

/-- The pointer moves to a tree in the store; the tree it leaves becomes `previous`. -/
theorem Keeps.flip (h : Keeps reads before s) {build : String} {tree : Tree}
    {promotion : Promotion} {decision : Decision} (htree : (s.trees build).isSome = true)
    (hpassed : decision.Passed) :
    Keeps reads before (Cli.flip build tree promotion decision s) := by
  refine h.of_trees_eq rfl ⟨?_, nofun, ?_⟩
  · intro dir hdir
    have hold := h.inv.named
    cases hcurrent : s.current with
    | none =>
        simp only [Store.named, Cli.flip, hcurrent] at hdir hold ⊢
        grind
    | some current =>
        simp only [Store.named, Cli.flip, hcurrent] at hdir hold ⊢
        grind
  · intro d hd
    rcases List.mem_append.mp hd with hd | hd
    · exact h.inv.flips d hd
    · exact List.mem_singleton.mp hd ▸ hpassed

theorem Keeps.stage (h : Keeps reads before s) {staged : Staged} {decision : Decision}
    (htree : (s.trees staged.dir).isSome = true) (hpassed : decision.Passed) :
    Keeps reads before { s with staged := some staged, stagedOn := some decision } := by
  refine h.of_trees_eq rfl ⟨?_, ?_, h.inv.flips⟩
  · intro dir hdir
    have hold := h.inv.named
    simp only [Store.named] at hdir hold
    grind
  · intro d hd
    exact Option.some.inj hd ▸ hpassed

theorem Keeps.unstage (h : Keeps reads before s) :
    Keeps reads before { s with staged := none, stagedOn := none } := by
  refine h.of_trees_eq rfl ⟨?_, nofun, h.inv.flips⟩
  intro dir hdir
  have hold := h.inv.named
  simp only [Store.named] at hdir hold
  grind

theorem Keeps.select (h : Keeps reads before s) {promotion : Promotion} {build : String}
    {tree : Tree} (htree : s.trees build = some tree) :
    Keeps reads before (Cli.select reads promotion build tree s).1 := by
  unfold Cli.select
  extract_lets refusal decision state recorded staged
  cases hrefusal : refusal with
  | some reason => exact h.collectStore
  | none =>
      have hpassed : decision.Passed :=
        ⟨_, _, (Option.or_eq_none_iff.mp hrefusal).1⟩
      have hrecorded : Keeps reads before recorded := h.writeState _
      have hbuild : (recorded.trees build).isSome = true := Option.isSome_of_eq_some htree
      have hflip : Keeps reads before (Cli.flip build tree promotion decision recorded) :=
        hrecorded.flip hbuild hpassed
      have hstage : Keeps reads before staged := hrecorded.stage hbuild hpassed
      simp only
      split_ifs
      · exact h.collectStore
      · exact hstage.collectStore
      · exact hrecorded
      · exact hrecorded
      · exact hflip
      · exact hflip.collectStore

theorem Keeps.promote (h : Keeps reads before s) (own : Option String) (promotion : Promotion) :
    Keeps reads before (Cli.promote reads own promotion s).1 := by
  unfold Cli.promote
  cases hobtain : promotion.source.obtain s with
  | none => exact h
  | some obtained =>
      obtain ⟨build, fetched⟩ := obtained
      have hfetched : Keeps reads before fetched := by
        cases hsource : promotion.source with
        | entry dir =>
            rw [hsource] at hobtain
            cases hobtain
            exact h
        | outside package =>
            rw [hsource] at hobtain
            cases package with
            | none => cases hobtain
            | some package =>
                cases hobtain
                exact h.sealTree _ _
      cases htree : fetched.trees build with
      | none => simpa only [htree] using hfetched
      | some tree =>
          simp only [htree]
          split_ifs
          · exact hfetched.collectStore
          · exact hfetched.select htree
          · exact hfetched.select htree

theorem Keeps.flipStaged (h : Keeps reads before s) (own : Option String)
    (promotion : Promotion) : Keeps reads before (Cli.flipStaged reads own promotion s).1 := by
  unfold Cli.flipStaged
  split
  case h_2 => exact h
  case h_1 staged decision hstaged hdecision =>
    by_cases hown : own = some staged.dir
    · rw [if_neg (not_not_intro hown)]
      cases htree : s.trees staged.dir with
      | none => exact h
      | some tree =>
          have hflipped : ∀ promotion : Promotion,
              Keeps reads before (Cli.flip staged.dir tree promotion decision s) := fun _ =>
            h.flip (Option.isSome_of_eq_some htree) (h.inv.stagedOn decision hdecision)
          simp only
          split
          · exact h.unstage
          · split_ifs
            · exact h
            · exact hflipped _
            · exact (hflipped _).collectStore
    · rw [if_pos hown]
      exact h

theorem Keeps.holdCrashLoop (h : Keeps reads before s) (build version : String)
    (claimedHomes : List RootedHome) :
    Keeps reads before (Cli.holdCrashLoop reads build version claimedHomes s).1 := by
  unfold Cli.holdCrashLoop
  split_ifs
  · exact h
  · extract_lets state marked previous backTo
    have hmarked : Keeps reads before marked := h.writeState _
    cases crashLoopAction version previous claimedHomes with
    | inr reason => exact hmarked
    | inl dir =>
        dsimp only
        generalize hrun : Cli.promote reads (some dir) (crashRollback version dir) marked =
          promoted
        have hpromoted : Keeps reads before promoted.1 := hrun ▸ hmarked.promote _ _
        obtain ⟨after, result⟩ := promoted
        cases result with
        | flipped target => exact hpromoted
        | staged target => exact hpromoted
        | refused reason => exact hpromoted
        | thrown => exact hpromoted

theorem storeStep_keeps (h : StoreInv s) (op : StoreOp) :
    Keeps reads s (storeStep s (reads, op)) := by
  have hs : Keeps reads s s := .refl h
  cases op with
  | promote own promotion => exact hs.promote own promotion
  | flipStaged own promotion => exact hs.flipStaged own promotion
  | holdCrashLoop build version homes => exact hs.holdCrashLoop build version homes
  | collectStore => exact hs.collectStore

theorem storeRun_inv (ops : List (Reads × StoreOp)) : StoreInv (storeRun ops) := by
  induction ops using List.reverseRecOn with
  | nil => exact ⟨nofun, nofun, nofun⟩
  | append_singleton ops op ih =>
      rw [storeRun, List.foldl_append]
      exact (storeStep_keeps ih op.2).inv

/-- After every operation of a run the trees that the records name are in the store, and so is
every tree that was there and that a claim names; and every flip that was not explicit was
decided upwards. -/
theorem store_keeps_and_rises (ops : List (Reads × StoreOp)) (reads : Reads) (op : StoreOp) :
    (∀ dir ∈ (storeRun (ops ++ [(reads, op)])).named,
      ((storeRun (ops ++ [(reads, op)])).trees dir).isSome = true) ∧
    (∀ dir ∈ claimedEntries reads.claimsAtCollect, ((storeRun ops).trees dir).isSome = true →
      ((storeRun (ops ++ [(reads, op)])).trees dir).isSome = true) ∧
    ∀ d ∈ (storeRun (ops ++ [(reads, op)])).flips, d.explicit = false → ∃ c, d.Rises c := by
  have hinv := storeRun_inv (ops ++ [(reads, op)])
  refine ⟨hinv.named, ?_, ?_⟩
  · have hstep : Keeps reads (storeRun ops) (storeStep (storeRun ops) (reads, op)) :=
      storeStep_keeps (storeRun_inv ops) op
    intro dir hdir hbefore
    rw [storeRun, List.foldl_append]
    exact hstep.claimed dir hdir hbefore
  · intro d hd hexplicit
    obtain ⟨toSorted, exactRequest, hpassed⟩ := hinv.flips d hd
    rw [hexplicit] at hpassed
    exact rises_of_promotionRefusal hpassed

/-! ## A version that does not compare -/

def stableSort : VersionSort where
  sort versions := versions.mergeSort sortsBefore
  perm versions := versions.mergeSort_perm sortsBefore
  sorted _ _ := rfl

/-- What an operation reads on a machine with no stimd and no job. -/
def idle : Reads where
  claims := []
  claimsAtCollect := []
  jobUses := []
  now := 0
  runningFrom := fun _ => false
  homes := []
  selfTest := true
  restores := true
  flipLock := true
  migrates := true
  toSorted := stableSort

/-- A promotion of a package with build id `build` and version `version`. -/
def promotionOf (build version : String) (explicit : Bool) : StoreOp :=
  .promote none {
    source := .outside (some (build, ⟨version, 1, true⟩))
    setBy := "use"
    explicit
    pinReason := none
    pinned := none
    channel := none
    restoreState := false }

/-- A person moves the engine to a build whose version is not a semantic one; it crash-loops,
and an update comes. -/
def unparsedBad : List (Reads × StoreOp) :=
  [(idle, promotionOf "a" "1.0.0" true), (idle, promotionOf "b" "x" true),
    (idle, .holdCrashLoop "b" "x" []), (idle, promotionOf "c" "1.1.0" false)]

/-- A person moves the engine to `v`, and an update to `w` comes. -/
def updated (v w : String) : List (Reads × StoreOp) :=
  [(idle, promotionOf "a" v true), (idle, promotionOf "b" w false)]

theorem promotionRefusal_explicit (target : String) (current : Option Current)
    (bad : List BadBuild) (exactRequest : Bool) :
    promotionRefusal toSorted target current bad true exactRequest = none := rfl

/-- An update that does not compare is not refused. -/
theorem updated_flips {v w : String} (hv : '-' ∉ v.toList) (hw : '-' ∉ w.toList)
    (h : compareVersions w v = some .nan) :
    ⟨false, w, some ⟨v, "a", .latest, false, none, "use"⟩, []⟩ ∈
      (storeRun (updated v w)).flips := by
  have hpassed : promotionRefusal stableSort w (some ⟨v, "a", .latest, false, none, "use"⟩) [] false false =
      none := by
    simp [promotionRefusal, newestBad, stableSort, h, atMost, hw]
  simp [storeRun, updated, storeStep, promotionOf, promote, Source.obtain, sealTree, select,
    promotionRefusal_explicit, hpassed, hv, handOver, Reads.homeRefusal, idle, claimsHeld, flip,
    Store.empty, Store.writeState, collectStore]

/-- `Infinity - Infinity` -/
theorem compareVersions_of_overflow {v w : Semver} (ha : semver a = some v)
    (hb : semver b = some w) (hne : v.major ≠ w.major)
    (hv : toDouble (digitsValue v.major) = none) (hw : toDouble (digitsValue w.major) = none) :
    compareVersions a b = some .nan := by
  simp only [compareVersions, ha, hb, if_pos hne, subtractDigits, hv, hw]

/-- The major number `first * 10 ^ 309`, which `Number` reads as `Infinity`. -/
def longDigits (first : Char) : List Char := first :: List.replicate 309 '0'

def longVersion (first : Char) : String :=
  .ofList (longDigits first ++ ['.', '0', '.', '0'])

theorem semver_longVersion_one :
    semver (longVersion '1') = some ⟨.ofList (longDigits '1'), "0", "0", none⟩ := by
  rw [semver, longVersion, String.toList_ofList]
  decide +kernel

theorem semver_longVersion_two :
    semver (longVersion '2') = some ⟨.ofList (longDigits '2'), "0", "0", none⟩ := by
  rw [semver, longVersion, String.toList_ofList]
  decide +kernel

theorem digitsValue_longDigits (first : Char) (h : first = '1' ∨ first = '2') :
    digitsValue (.ofList (longDigits first)) = (first.toNat - '0'.toNat) * 10 ^ 309 := by
  rw [digitsValue, String.toList_ofList]
  rcases h with rfl | rfl
  · decide +kernel
  · decide +kernel

theorem toDouble_longDigits (first : Char) (h : first = '1' ∨ first = '2') :
    toDouble (digitsValue (.ofList (longDigits first))) = none := by
  rw [digitsValue_longDigits first h]
  rcases h with rfl | rfl
  · decide +kernel
  · decide +kernel

theorem compareVersions_longVersion :
    compareVersions (longVersion '1') (longVersion '2') = some .nan := by
  refine compareVersions_of_overflow semver_longVersion_one semver_longVersion_two ?_
    (toDouble_longDigits '1' (.inl rfl)) (toDouble_longDigits '2' (.inr rfl))
  intro heq
  exact absurd (List.cons.inj (String.ofList_injective heq)).1 (by decide)

theorem dash_not_mem_longVersion {first : Char} (h : first ≠ '-') :
    '-' ∉ (longVersion first).toList := by
  rw [longVersion, String.toList_ofList, longDigits]
  simp only [List.cons_append, List.mem_cons, List.mem_append, List.mem_replicate, not_or]
  exact ⟨h.symm, by decide, by decide⟩

theorem unparsedBad_flips :
    ⟨false, "1.1.0", some ⟨"1.0.0", "a", .latest, false, some "crash loop in x", "crash-loop"⟩,
      [⟨"b", "x"⟩]⟩ ∈ (storeRun unparsedBad).flips := by
  decide +kernel

/-- The engine moved past a version that was recorded bad and that its target is not above, and
to a version that is not above the one it replaced. -/
theorem not_rises_unparsedBad_updated :
    (∃ d ∈ (storeRun unparsedBad).flips, d.explicit = false ∧
      ∃ each ∈ d.bad, compareVersions d.target each.version ≠ some .positive) ∧
    (∃ d ∈ (storeRun (updated (longVersion '2') (longVersion '1'))).flips, d.explicit = false ∧
      ∃ c, d.current = some c ∧ compareVersions d.target c.version ≠ some .positive) := by
  refine ⟨⟨_, unparsedBad_flips, rfl, ⟨"b", "x"⟩, List.mem_cons_self, ?_⟩,
    ⟨_, updated_flips (dash_not_mem_longVersion (by decide)) (dash_not_mem_longVersion (by decide))
      compareVersions_longVersion, rfl, _, rfl, ?_⟩⟩
  · decide +kernel
  · rw [compareVersions_longVersion]
    nofun

end Stim.Cli
