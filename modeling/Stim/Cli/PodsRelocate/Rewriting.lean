import Stim.Cli.PodsRelocate.Relocated

/-!
# The rewriting of a tree

`Kept` says what an entry of the cloned tree may have become: itself, or itself rewritten once.
`Progress` says that, and of which files and links the rewriting is still to come.  From a tree of
which nothing that is rewritten would be rewritten twice, a run that comes to its last operation
has rewritten everything once.
-/

namespace Stim.PodsRelocate

open CutSection CutSection.Section

/-! ## Texts and their bytes -/

theorem encode_infix {a b : Text} (h : a <:+: b) : Utf8.encode a <:+: Utf8.encode b := by
  obtain ⟨front, back, rfl⟩ := h
  refine ⟨Utf8.encode front, Utf8.encode back, ?_⟩
  simp [Utf8.encode]

section Rewriting

variable {host : Host} {roots : Roots}

variable {content : Bytes}

theorem replacedOnce_self
    (hNone : (pathPattern host roots.source).test (Utf8.decode content) = false) :
    ReplacedOnce host roots content content :=
  ⟨(Delimited.replaceAll_of_not_test roots.target hNone).symm, .inl rfl⟩

theorem replacedOnce_once (hText : isText content = true) (hLegible : Legible host roots content) :
    ReplacedOnce host roots content (once host roots content) := by
  cases hTest : (pathPattern host roots.source).test (Utf8.decode content) with
  | false =>
      have hSkip : once host roots content = content := by
        rw [once, hTest, Bool.not_false, Bool.or_true, if_pos rfl]
      rw [hSkip]
      exact replacedOnce_self hTest
  | true =>
      have hSame := hLegible hText hTest
      -- the text has the path, so its bytes do
      have hBytes := encode_infix (Delimited.infix_of_test hTest)
      rw [hSame] at hBytes
      have hIncludes : includes content (Utf8.encode roots.source) = true := decide_eq_true hBytes
      have hNow : once host roots content =
          Utf8.encode (relocatePath host (Utf8.decode content) roots.source roots.target) := by
        rw [isText, Bool.not_eq_true'] at hText
        rw [once, hIncludes, hText, hTest]
        rfl
      rw [hNow]
      exact ⟨Utf8.decode_encode _, .inr ⟨hSame, rfl⟩⟩

theorem isGenerated_ne {path : Path} {name : Text} (h : isGenerated path = true)
    (hBelow : [name] <+: path) : [name] ≠ path := by
  rintro rfl
  obtain ⟨other, -, hOther⟩ := List.any_eq_true.mp h
  rw [Bool.and_eq_true, List.isPrefixOf_iff_prefix, decide_eq_true_iff] at hOther
  obtain ⟨rest, hRest⟩ := hOther.1
  have hSame : other = name := by simpa using congrArg List.head? hRest
  exact hOther.2 (by rw [hSame])

theorem beside_ne (path : Path) (h : path ≠ []) : beside path ≠ path := by
  induction path with
  | nil => exact absurd rfl h
  | cons name rest ih =>
      cases rest with
      | nil =>
          intro hEq
          have hLength := congrArg List.length (List.head_eq_of_cons_eq hEq)
          simp at hLength
      | cons next rest =>
          intro hEq
          exact ih (by simp) (List.tail_eq_of_cons_eq hEq)

theorem beside_ne_nil (path : Path) (h : path ≠ []) : beside path ≠ [] := by
  match path with
  | [] => exact absurd rfl h
  | [_] => simp [beside]
  | _ :: _ :: _ => simp [beside]

theorem beside_ne_manifestPath (path : Path) : beside path ≠ manifestPath := by
  match path with
  | [] => decide
  | [name] =>
      intro hEq
      have hName : name ++ ".stim-relocate".toList = "Manifest.lock".toList :=
        List.head_eq_of_cons_eq hEq
      have hSuffix : ".stim-relocate".toList <:+ "Manifest.lock".toList := ⟨name, hName⟩
      exact absurd hSuffix (by decide)
  | _ :: next :: rest =>
      intro hEq
      exact beside_ne_nil (next :: rest) (by simp) (List.tail_eq_of_cons_eq hEq)

/-! ## What entries may have become -/

variable (host roots) in
/-- What may be found at a path of the cloned tree: what was there, rewritten once or not, and a
link that a run left where nothing was. -/
def Kept (original : Pods) (path : Path) (now : Option Entry) : Prop :=
  match original.get path with
  | some (.file content) => now = some (.file content) ∨
      isGenerated path = true ∧ now = some (.file (once host roots content))
  | some (.link target) => now = some (.link target) ∨
      now = some (.link (relocatePath host target roots.source roots.target))
  | some .directory => now = some .directory
  | none => now = none ∨ path ≠ [] ∧ ∃ target, now = some (.link target)

theorem kept_refl (original : Pods) (path : Path) :
    Kept host roots original path (original.get path) := by
  unfold Kept
  split
  · rename_i hGet
    exact .inl hGet
  · rename_i hGet
    exact .inl hGet
  · assumption
  · rename_i hGet
    exact .inl hGet

variable {original : Pods} {path : Path}

theorem Kept.file (h : Kept host roots original path (some (.file content))) :
    ∃ first, original.get path = some (.file first) ∧
      (content = first ∨ isGenerated path = true ∧ content = once host roots first) := by
  unfold Kept at h
  split at h
  · rename_i first hGet
    refine ⟨first, hGet, ?_⟩
    simpa using h
  · simp at h
  · simp at h
  · simp at h

theorem Kept.link {target : Text} (h : Kept host roots original path (some (.link target))) :
    (∃ first, original.get path = some (.link first)) ∨
      original.get path = none ∧ path ≠ [] := by
  unfold Kept at h
  split at h
  · simp at h
  · rename_i first hGet
    exact .inl ⟨first, hGet⟩
  · simp at h
  · rename_i hGet
    obtain h | ⟨hPath, -⟩ := h
    · cases h
    · exact .inr ⟨hGet, hPath⟩

theorem Kept.directory (h : Kept host roots original path (some .directory)) :
    original.get path = some .directory := by
  unfold Kept at h
  split at h
  · simp at h
  · simp at h
  · assumption
  · simp at h

theorem Kept.absent (h : Kept host roots original path none) : original.get path = none := by
  unfold Kept at h
  split at h
  · simp at h
  · simp at h
  · cases h
  · assumption

/-! ## Progress -/

variable (host roots) in
/-- The tree in the course of a rewriting.  `files` and `links` tell which generated files and
links are still to be rewritten. -/
structure Progress (original : Pods) (manifest : Option Entry) (files links : Path → Prop)
    (pods : Pods) : Prop where
  manifest : pods.get manifestPath = manifest
  kept : ∀ path, path ≠ manifestPath → Kept host roots original path (pods.get path)
  files : ∀ path first, isGenerated path = true → original.get path = some (.file first) →
    ∃ content, pods.get path = some (.file content) ∧
      (files path → once host roots content = once host roots first) ∧
      (¬ files path → content = once host roots first)
  links : ∀ path first, original.get path = some (.link first) →
    ∃ target, pods.get path = some (.link target) ∧
      (links path → relocatePath host target roots.source roots.target =
        relocatePath host first roots.source roots.target) ∧
      (¬ links path → target = relocatePath host first roots.source roots.target)

variable {manifest : Option Entry} {files files' links links' : Path → Prop} {pods : Pods}

/-- Only what is a generated file or a link of the cloned tree is to be rewritten. -/
theorem Progress.congr (h : Progress host roots original manifest files links pods)
    (hFiles : ∀ path first, isGenerated path = true → original.get path = some (.file first) →
      (files path ↔ files' path))
    (hLinks : ∀ path first, original.get path = some (.link first) → (links path ↔ links' path)) :
    Progress host roots original manifest files' links' pods := by
  refine ⟨h.manifest, h.kept, ?_, ?_⟩
  · intro path first hGenerated hFirst
    rw [← hFiles path first hGenerated hFirst]
    exact h.files path first hGenerated hFirst
  · intro path first hFirst
    rw [← hLinks path first hFirst]
    exact h.links path first hFirst

theorem isGenerated_manifestPath : isGenerated manifestPath = false := by decide

/-- A tree that another rewriting would not rewrite twice. -/
theorem progress_of_fresh (hCloned : Cloned host roots original)
    (hKept : ∀ path, path ≠ manifestPath → Kept host roots original path (pods.get path))
    (hFresh : Fresh host roots original pods) :
    Progress host roots original (pods.get manifestPath) (fun _ => True) (fun _ => True) pods := by
  refine ⟨rfl, hKept, ?_, ?_⟩
  · intro path first hGenerated hFirst
    have hPath : path ≠ manifestPath := by
      rintro rfl
      rw [isGenerated_manifestPath] at hGenerated
      cases hGenerated
    have hNow := hKept path hPath
    rw [Kept, hFirst] at hNow
    obtain hNow | ⟨-, hNow⟩ := hNow
    · exact ⟨first, hNow, fun _ => rfl, fun h => absurd trivial h⟩
    · refine ⟨once host roots first, hNow, fun _ => ?_, fun h => absurd trivial h⟩
      obtain hSame | hOriginal := hFresh path _ hNow hGenerated
      · exact hSame
      · rw [hFirst] at hOriginal
        injection hOriginal with hOriginal
        injection hOriginal with hOriginal
        rw [← hOriginal, ← hOriginal]
  · intro path first hFirst
    have hPath : path ≠ manifestPath := by
      rintro rfl
      exact hCloned.plain _ List.mem_cons_self _ hFirst
    have hNow := hKept path hPath
    rw [Kept, hFirst] at hNow
    obtain hNow | hNow := hNow
    · exact ⟨first, hNow, fun _ => rfl, fun h => absurd trivial h⟩
    · refine ⟨_, hNow, fun _ => ?_, fun h => absurd trivial h⟩
      obtain hSame | hOriginal := hFresh path _ hNow (by rw [hFirst]; exact Option.some_ne_none _)
      · exact hSame
      · rw [hFirst] at hOriginal
        injection hOriginal with hOriginal
        injection hOriginal with hOriginal
        rw [← hOriginal, ← hOriginal]

/-! ## One file -/

theorem Progress.relocated (h : Progress host roots original manifest files links pods)
    {first content : Bytes} (hGenerated : isGenerated path = true)
    (hFirst : original.get path = some (.file first)) (hPath : files path)
    (hContent : pods.get path = some (.file content))
    (now : Pods) (hSet : now.get path = some (.file (once host roots content)))
    (hOther : ∀ other, other ≠ path → now.get other = pods.get other) :
    Progress host roots original manifest (fun other => other ≠ path ∧ files other) links now := by
  obtain ⟨content', hContent', hOnce, -⟩ := h.files path first hGenerated hFirst
  rw [hContent] at hContent'
  cases hContent'
  have hManifest : manifestPath ≠ path := by
    rintro rfl
    rw [isGenerated_manifestPath] at hGenerated
    cases hGenerated
  refine ⟨?_, ?_, ?_, ?_⟩
  · rw [hOther _ hManifest]
    exact h.manifest
  · intro other hNot
    by_cases hSame : other = path
    · subst hSame
      rw [hSet, hOnce hPath, Kept, hFirst]
      exact .inr ⟨hGenerated, rfl⟩
    · rw [hOther _ hSame]
      exact h.kept other hNot
  · intro other first' hGenerated' hFirst'
    by_cases hSame : other = path
    · subst hSame
      rw [hFirst] at hFirst'
      cases hFirst'
      exact ⟨_, hSet, fun hLeft => absurd rfl hLeft.1, fun _ => hOnce hPath⟩
    · obtain ⟨content', hContent', hStill, hDone⟩ := h.files other first' hGenerated' hFirst'
      refine ⟨content', ?_, fun hLeft => hStill hLeft.2, fun hLeft => hDone ?_⟩
      · rw [hOther _ hSame]
        exact hContent'
      · exact fun hOpen => hLeft ⟨hSame, hOpen⟩
  · intro other first' hFirst'
    have hSame : other ≠ path := by
      rintro rfl
      rw [hFirst] at hFirst'
      cases hFirst'
    rw [hOther _ hSame]
    exact h.links other first' hFirst'

section Operations

variable {J : Pods → Bool → Prop} {s : Store} {listing : Listing}

/-- Whatever a run has rewritten, it may die with. -/
def Allows (host : Host) (roots : Roots) (original : Pods) (manifest : Option Entry)
    (J : Pods → Bool → Prop) : Prop :=
  ∀ pods touched, pods.get manifestPath = manifest →
    (∀ path, path ≠ manifestPath → Kept host roots original path (pods.get path)) → J pods touched

theorem Progress.allowed (h : Progress host roots original manifest files links pods)
    (hJ : Allows host roots original manifest J) (touched : Bool) : J pods touched :=
  hJ pods touched h.manifest h.kept

theorem runs_relocateFile (hJ : Allows host roots original manifest J)
    (h : Progress host roots original manifest files links s.pods) {first : Bytes}
    (hGenerated : isGenerated path = true) (hFirst : original.get path = some (.file first))
    (hPath : files path) :
    Runs J (relocateFile host roots path) s fun _ pods _ =>
      Progress host roots original manifest (fun other => other ≠ path ∧ files other) links pods := by
  refine (runs_readFileSync (h.allowed hJ _)).bind ?_
  rintro content t ⟨⟨hPods, hTouched⟩, hContent⟩
  rw [← hPods] at h hContent
  -- a file that is left alone is as the rewriting leaves it
  have hSkip : once host roots content = content →
      Progress host roots original manifest (fun other => other ≠ path ∧ files other) links t.pods := by
    intro hOnce
    refine h.relocated hGenerated hFirst hPath hContent t.pods ?_ fun _ _ => rfl
    rw [hOnce]
    exact hContent
  by_cases hIncludes : (!includes content (Utf8.encode roots.source) || content.contains 0) = true
  · rw [if_pos hIncludes]
    refine runs_pure (hSkip ?_)
    rw [once, hIncludes, Bool.true_or, if_pos rfl]
  · rw [if_neg hIncludes]
    rw [Bool.not_eq_true] at hIncludes
    by_cases hTest : (!(pathPattern host roots.source).test (Utf8.decode content)) = true
    · rw [if_pos hTest]
      refine runs_pure (hSkip ?_)
      rw [once, hTest, Bool.or_true, if_pos rfl]
    · rw [if_neg hTest]
      have hOnce : once host roots content = Utf8.encode
          (relocatePath host (Utf8.decode content) roots.source roots.target) := by
        rw [once, hIncludes, Bool.false_or, if_neg hTest]
      rw [← hOnce]
      have hNow := h.relocated hGenerated hFirst hPath hContent
        (t.pods.set path (.file (once host roots content))) OrderedMap.get_set_self
        fun _ hOther => OrderedMap.get_set_of_ne hOther
      exact runs_change (h.allowed hJ _) (hNow.allowed hJ _) hNow

/-! ## The generated directories -/

theorem mem_below {dir : Path} {e : Path × Entry} :
    e ∈ listing.below dir pods ↔ e ∈ pods.entries ∧ dir <+: e.1 ∧ e.1 ≠ dir := by
  rw [Listing.below, (listing.perm _).mem_iff, List.mem_filter, Bool.and_eq_true,
    List.isPrefixOf_iff_prefix, decide_eq_true_iff]

theorem nodup_below (dir : Path) : ((listing.below dir pods).map Prod.fst).Nodup := by
  have hPerm := (listing.perm (pods.entries.filter fun e => dir.isPrefixOf e.1 && e.1 ≠ dir)).map
    Prod.fst
  exact hPerm.nodup_iff.mpr (pods.nodup.sublist (List.filter_sublist.map Prod.fst))

/-- The head of a suffix of a walk is not visited again. -/
theorem not_mem_of_suffix {all rest : List (Path × Entry)} {e : Path × Entry}
    (hNodup : (all.map Prod.fst).Nodup) (hSuffix : e :: rest <:+ all) :
    e.1 ∉ rest.map Prod.fst := by
  have hSub := hNodup.sublist (hSuffix.sublist.map Prod.fst)
  rw [List.map_cons, List.nodup_cons] at hSub
  exact hSub.1

theorem runs_walkTextFiles (hJ : Allows host roots original manifest J) {name : Text}
    {names : List Text} (hName : name ∈ GENERATED_DIRS) (hNew : name ∉ names)
    (h : Progress host roots original manifest (fun path => ∃ dir ∈ name :: names, [dir] <+: path)
      links s.pods) :
    Runs J (walkTextFiles listing [name] (relocateFile host roots)) s fun _ pods _ =>
      Progress host roots original manifest (fun path => ∃ dir ∈ names, [dir] <+: path) links
        pods := by
  refine (runs_attempt (h.allowed hJ _)).bind ?_
  rintro _ t ⟨hPods, hTouched⟩
  refine runs_read ?_
  rw [← hPods] at h
  -- what is still to come: what is left of the listing, and the directories behind
  let I (entries : List (Path × Entry)) : Pods → Bool → Prop := fun pods _ =>
    Progress host roots original manifest
      (fun path => path ∈ entries.map Prod.fst ∨ ∃ dir ∈ names, [dir] <+: path) links pods
  refine Runs.mono (runs_walk _ I (listing.below [name] t.pods) ?visit List.suffix_rfl ?start)
    ?done
  case done =>
    intro _ pods _ hDone
    refine hDone.congr (fun path first _ _ => ?_) fun _ _ _ => Iff.rfl
    simp
  · rintro ⟨path, entry⟩ rest u hSuffix hOpen
    obtain ⟨hMem, hBelow, hNotDir⟩ := mem_below.mp (hSuffix.subset List.mem_cons_self)
    have hGet := OrderedMap.get_eq_some_iff.mpr hMem
    have hGenerated : isGenerated path = true := by
      refine List.any_eq_true.mpr ⟨name, hName, ?_⟩
      rw [Bool.and_eq_true, List.isPrefixOf_iff_prefix, decide_eq_true_iff]
      exact ⟨hBelow, hNotDir⟩
    have hPath : path ≠ manifestPath := by
      rintro rfl
      rw [isGenerated_manifestPath] at hGenerated
      cases hGenerated
    have hKept := h.kept path hPath
    rw [hGet] at hKept
    -- an entry that is no file of the cloned tree leaves the same files to come
    have hNoFile : (∀ first, original.get path ≠ some (.file first)) → I rest u.pods u.touched := by
      intro hNone
      refine hOpen.congr (fun other first _ hFirst => ?_) fun _ _ _ => Iff.rfl
      have hOther : other ≠ path := by
        rintro rfl
        exact hNone first hFirst
      simp [hOther]
    cases entry with
    | directory =>
        have hDirectory := hKept.directory
        refine (runs_attempt (hOpen.allowed hJ _)).mono ?_
        rintro _ pods touched ⟨rfl, rfl⟩
        exact hNoFile (by rw [hDirectory]; simp)
    | link target =>
        refine runs_pure (hNoFile ?_)
        obtain ⟨first, hFirst⟩ | ⟨hNone, -⟩ := hKept.link
        · rw [hFirst]
          simp
        · rw [hNone]
          simp
    | file content =>
        obtain ⟨first, hFirst, -⟩ := hKept.file
        refine (runs_relocateFile hJ hOpen hGenerated hFirst (.inl (by simp))).mono ?_
        intro _ pods _ hNow
        refine hNow.congr (fun other _ _ _ => ?_) fun _ _ _ => Iff.rfl
        have hRest : path ∉ rest.map Prod.fst := not_mem_of_suffix (nodup_below [name]) hSuffix
        have hBehind : ¬ ∃ dir ∈ names, [dir] <+: path := by
          rintro ⟨dir, hDir, hPrefix⟩
          have hSame : [dir] = [name] :=
            (List.prefix_of_prefix_length_le hPrefix hBelow (by simp)).eq_of_length (by simp)
          rw [List.cons.injEq] at hSame
          exact hNew (hSame.1 ▸ hDir)
        by_cases hOther : other = path
        · subst hOther
          simp only [ne_eq, not_true_eq_false, false_and, false_iff, not_or]
          exact ⟨hRest, hBehind⟩
        · simp [hOther]
  · refine h.congr (fun path first hGenerated hFirst => ?_) fun _ _ _ => Iff.rfl
    have hMem : path ∈ (listing.below [name] t.pods).map Prod.fst ↔ [name] <+: path := by
      constructor
      · intro hMem
        obtain ⟨e, he, rfl⟩ := List.mem_map.mp hMem
        exact (mem_below.mp he).2.1
      · intro hBelow
        obtain ⟨content, hContent, -⟩ := h.files path first hGenerated hFirst
        refine List.mem_map.mpr ⟨(path, .file content), mem_below.mpr ⟨?_, hBelow, ?_⟩, rfl⟩
        · exact OrderedMap.get_eq_some_iff.mp hContent
        · exact (isGenerated_ne hGenerated hBelow).symm
    rw [hMem]
    simp

theorem runs_relocateGenerated (hCloned : Cloned host roots original)
    (hJ : Allows host roots original manifest J) {names : List Text}
    (hNames : names <:+ GENERATED_DIRS)
    (h : Progress host roots original manifest (fun path => ∃ dir ∈ names, [dir] <+: path)
      links s.pods) :
    Runs J (relocateGenerated host roots listing names) s fun _ pods _ =>
      Progress host roots original manifest (fun _ => False) links pods := by
  induction names generalizing s with
  | nil =>
      refine runs_pure (h.congr (fun path first _ _ => ?_) fun _ _ _ => Iff.rfl)
      simp
  | cons name names ih =>
      have hName : name ∈ GENERATED_DIRS := hNames.subset List.mem_cons_self
      have hNew : name ∉ names := by
        have hNodup : (name :: names).Nodup :=
          (by decide : GENERATED_DIRS.Nodup).sublist hNames.sublist
        exact (List.nodup_cons.mp hNodup).1
      have hRest := (List.suffix_cons name names).trans hNames
      refine runs_entryAt ?_
      match hNone : s.pods.get [name] with
      | none =>
          -- without the directory there are no files of the cloned tree below it
          refine ih hRest ?_
          refine h.congr (fun path first hGenerated hFirst => ?_) fun _ _ _ => Iff.rfl
          have hAway : ¬ [name] <+: path := by
            intro hBelow
            have hKeys : path ∈ original.keys := by
              rw [← OrderedMap.get_isSome_iff, hFirst]
              rfl
            have hDirectory := hCloned.tree path hKeys [name] (by simp) hBelow
              (isGenerated_ne hGenerated hBelow)
            have hKept := h.kept [name] (by
              rintro hEq
              rw [manifestPath, List.cons.injEq] at hEq
              rw [hEq.1] at hName
              exact absurd hName (by decide))
            rw [hNone, Kept, hDirectory] at hKept
            cases hKept
          simp [hAway]
      | some .directory =>
          exact (runs_walkTextFiles hJ hName hNew h).bind fun _ t => ih hRest
      | some (.file _) | some (.link _) =>
          exact (runs_fail (h.allowed hJ _)).bind (Q := fun _ _ _ => False) fun _ _ => False.elim

/-! ## The links -/

/-- A link beside a path at which nothing was is none of the cloned tree. -/
theorem Progress.besideLink (h : Progress host roots original manifest files links pods)
    (hNone : pods.get path = none) (hPath : path ≠ manifestPath) (hNil : path ≠ [])
    (target : Text) (now : Pods) (hSet : now.get path = some (.link target))
    (hOther : ∀ other, other ≠ path → now.get other = pods.get other) :
    Progress host roots original manifest files links now := by
  have hKept := h.kept path hPath
  rw [hNone] at hKept
  have hAbsent := hKept.absent
  refine ⟨?_, ?_, ?_, ?_⟩
  · rw [hOther _ hPath.symm]
    exact h.manifest
  · intro other hNot
    by_cases hSame : other = path
    · subst hSame
      rw [hSet, Kept, hAbsent]
      exact .inr ⟨hNil, target, rfl⟩
    · rw [hOther _ hSame]
      exact h.kept other hNot
  · intro other first hGenerated hFirst
    have hSame : other ≠ path := by
      rintro rfl
      rw [hAbsent] at hFirst
      cases hFirst
    rw [hOther _ hSame]
    exact h.files other first hGenerated hFirst
  · intro other first hFirst
    have hSame : other ≠ path := by
      rintro rfl
      rw [hAbsent] at hFirst
      cases hFirst
    rw [hOther _ hSame]
    exact h.links other first hFirst

/-- A link is rewritten. -/
theorem Progress.relinked (h : Progress host roots original manifest files links pods)
    {target : Text} (hPath : path ≠ manifestPath) (hTarget : pods.get path = some (.link target))
    (hOpen : links path) (now : Pods)
    (hSet : now.get path =
      some (.link (relocatePath host target roots.source roots.target)))
    (hOther : ∀ other, other ≠ path → now.get other = pods.get other) :
    Progress host roots original manifest files (fun other => other ≠ path ∧ links other) now := by
  have hKept := h.kept path hPath
  rw [hTarget] at hKept
  refine ⟨?_, ?_, ?_, ?_⟩
  · rw [hOther _ hPath.symm]
    exact h.manifest
  · intro other hNot
    by_cases hSame : other = path
    · subst hSame
      rw [hSet]
      obtain ⟨first, hFirst⟩ | ⟨hNone, hNil⟩ := hKept.link
      · obtain ⟨target', hTarget', hOnce, -⟩ := h.links other first hFirst
        rw [hTarget] at hTarget'
        cases hTarget'
        rw [hOnce hOpen, Kept, hFirst]
        exact .inr rfl
      · rw [Kept, hNone]
        exact .inr ⟨hNil, _, rfl⟩
    · rw [hOther _ hSame]
      exact h.kept other hNot
  · intro other first hGenerated hFirst
    have hSame : other ≠ path := by
      rintro rfl
      obtain ⟨first', hFirst'⟩ | ⟨hNone, -⟩ := hKept.link
      · rw [hFirst] at hFirst'
        cases hFirst'
      · rw [hFirst] at hNone
        cases hNone
    rw [hOther _ hSame]
    exact h.files other first hGenerated hFirst
  · intro other first hFirst
    obtain ⟨target', hTarget', hStill, hDone⟩ := h.links other first hFirst
    by_cases hSame : other = path
    · subst hSame
      rw [hTarget] at hTarget'
      cases hTarget'
      exact ⟨_, hSet, fun hLeft => absurd rfl hLeft.1, fun _ => hStill hOpen⟩
    · refine ⟨target', ?_, fun hLeft => hStill hLeft.2, fun hLeft => hDone ?_⟩
      · rw [hOther _ hSame]
        exact hTarget'
      · exact fun hTodo => hLeft ⟨hSame, hTodo⟩

theorem runs_relocateLink (hJ : Allows host roots original manifest J)
    (hManifest : ∀ target, manifest ≠ some (.link target)) (hNil : path ≠ [])
    (h : Progress host roots original manifest files links s.pods) (hOpen : links path) :
    Runs J (relocateLink host roots path) s fun _ pods _ =>
      Progress host roots original manifest files (fun other => other ≠ path ∧ links other)
        pods := by
  refine (runs_readlinkSync (h.allowed hJ _)).bind ?_
  rintro target t ⟨⟨hPods, hTouched⟩, hTarget⟩
  rw [← hPods] at h hTarget
  have hPath : path ≠ manifestPath := by
    rintro rfl
    rw [h.manifest] at hTarget
    exact hManifest target hTarget
  by_cases hTest : (!(pathPattern host roots.source).test target) = true
  · rw [if_pos hTest]
    refine runs_pure (h.relinked hPath hTarget hOpen t.pods ?_ fun _ _ => rfl)
    rw [Bool.not_eq_true'] at hTest
    rw [relocatePath, Delimited.replaceAll_of_not_test _ hTest]
    exact hTarget
  · rw [if_neg hTest]
    have hNext := beside_ne path hNil
    let target' := relocatePath host target roots.source roots.target
    -- the new link lies beside the old one, and then takes its place
    refine Runs.bind (Q := fun _ pods _ => pods = t.pods.set (beside path) (.link target') ∧
      t.pods.get (beside path) = none) ?_ ?_
    · refine runs_entryAt ?_
      split
      · rename_i hNone
        have hBeside := h.besideLink hNone (beside_ne_manifestPath path)
          (beside_ne_nil path hNil) target' (t.pods.set (beside path) (.link target'))
          OrderedMap.get_set_self fun _ hOther => OrderedMap.get_set_of_ne hOther
        exact runs_change (h.allowed hJ _) (hBeside.allowed hJ _) ⟨rfl, hNone⟩
      · exact runs_fail (h.allowed hJ _)
    · rintro _ u ⟨hSet, hNone⟩
      have hBeside := h.besideLink hNone (beside_ne_manifestPath path)
        (beside_ne_nil path hNil) target' u.pods (by rw [hSet]; exact OrderedMap.get_set_self)
        fun _ hOther => by rw [hSet]; exact OrderedMap.get_set_of_ne hOther
      have hGet : u.pods.get (beside path) = some (.link target') := by
        rw [hSet]
        exact OrderedMap.get_set_self
      have hBack : ∀ other, (u.pods.delete (beside path)).get other = t.pods.get other := by
        intro other
        by_cases hOther : other = beside path
        · rw [hOther, OrderedMap.get_delete_self, hNone]
        · rw [OrderedMap.get_delete_of_ne hOther, hSet, OrderedMap.get_set_of_ne hOther]
      have hNow := h.relinked hPath hTarget hOpen
        ((u.pods.delete (beside path)).set path (.link target')) OrderedMap.get_set_self
        fun other hOther => by rw [OrderedMap.get_set_of_ne hOther, hBack]
      refine runs_onError_change (hBeside.allowed hJ _) ?_ ?_ ?_
      · rw [hGet]
        exact hNow.allowed hJ _
      · rw [hGet]
        exact hNow
      · -- the new link is taken away again
        intro e v hSame
        rw [← hSame] at hBeside hBack
        have hUndone : ∀ touched, J (v.pods.delete (beside path)) touched := by
          intro touched
          refine hJ _ touched ?_ ?_
          · rw [hBack]
            exact h.manifest
          · intro other hNot
            rw [hBack]
            exact h.kept other hNot
        refine Runs.bind (Q := fun _ pods _ => ∀ touched, J pods touched) ?_ ?_
        · exact runs_change (hBeside.allowed hJ _) (hUndone _) hUndone
        · intro _ w hw
          exact runs_fail (hw _)

theorem runs_walkSymlinks (hCloned : Cloned host roots original)
    (hJ : Allows host roots original manifest J)
    (hManifest : ∀ target, manifest ≠ some (.link target))
    (h : Progress host roots original manifest files (fun _ => True) s.pods) :
    Runs J (walkSymlinks listing [] (relocateLink host roots)) s fun _ pods _ =>
      Progress host roots original manifest files (fun _ => False) pods := by
  refine (runs_attempt (h.allowed hJ _)).bind ?_
  rintro _ t ⟨hPods, hTouched⟩
  refine runs_read ?_
  rw [← hPods] at h
  let I (entries : List (Path × Entry)) : Pods → Bool → Prop := fun pods _ =>
    Progress host roots original manifest files (fun path => path ∈ entries.map Prod.fst) pods
  refine Runs.mono (runs_walk _ I (listing.below [] t.pods) ?visit List.suffix_rfl ?start)
    ?done
  case done =>
    intro _ pods _ hDone
    refine hDone.congr (fun _ _ _ _ => Iff.rfl) fun path first _ => ?_
    simp
  · rintro ⟨path, entry⟩ rest u hSuffix hOpen
    obtain ⟨hMem, -, hNil⟩ := mem_below.mp (hSuffix.subset List.mem_cons_self)
    have hGet := OrderedMap.get_eq_some_iff.mpr hMem
    -- an entry that was no link at the start is none of the cloned tree
    have hNoLink : (∀ target, entry ≠ .link target) → I rest u.pods u.touched := by
      intro hNone
      refine hOpen.congr (fun _ _ _ _ => Iff.rfl) fun other first hFirst => ?_
      have hOther : other ≠ path := by
        rintro rfl
        obtain ⟨target, hTarget, -⟩ := h.links other first hFirst
        rw [hGet] at hTarget
        cases hTarget
        exact hNone target rfl
      simp [hOther]
    cases entry with
    | directory =>
        refine (runs_attempt (hOpen.allowed hJ _)).mono ?_
        rintro _ pods touched ⟨rfl, rfl⟩
        exact hNoLink (by simp)
    | file content => exact runs_pure (hNoLink (by simp))
    | link target =>
        refine (runs_relocateLink hJ hManifest hNil hOpen (by simp)).mono ?_
        intro _ pods _ hNow
        refine hNow.congr (fun _ _ _ _ => Iff.rfl) fun other _ _ => ?_
        have hRest : path ∉ rest.map Prod.fst := not_mem_of_suffix (nodup_below []) hSuffix
        by_cases hOther : other = path
        · subst hOther
          simpa using hRest
        · simp [hOther]
  · refine h.congr (fun _ _ _ _ => Iff.rfl) fun path first hFirst => ?_
    obtain ⟨target, hTarget, -⟩ := h.links path first hFirst
    have hNil : path ≠ [] := by
      rintro rfl
      refine hCloned.rooted ?_
      rw [← OrderedMap.get_isSome_iff, hFirst]
      rfl
    have hMem : (path, Entry.link target) ∈ listing.below [] t.pods :=
      mem_below.mpr ⟨OrderedMap.get_eq_some_iff.mp hTarget, List.nil_prefix, hNil⟩
    simpa using ⟨_, hMem⟩

/-! ## To the end -/

/-- A tree that is rewritten, and that the search for the path found nothing in. -/
theorem Progress.complete (hCloned : Cloned host roots original)
    (h : Progress host roots original manifest (fun _ => False) (fun _ => False) pods)
    (hFound : ∀ e ∈ listing.below [] pods, found host roots e.2 = false)
    (hVisible : ∀ path first, path ≠ manifestPath → original.get path = some (.file first) →
      Visible host roots (if isGenerated path then once host roots first else first))
    (hLegible : ∀ path first, isGenerated path = true → original.get path = some (.file first) →
      Legible host roots first)
    {lock : Bytes} (hLock : namesSource host roots (.file lock) = false) :
    Relocated host roots original (pods.set manifestPath (.file lock)) := by
  have hOther : ∀ path, path ≠ manifestPath →
      (pods.set manifestPath (.file lock)).get path = pods.get path :=
    fun path hPath => OrderedMap.get_set_of_ne hPath
  refine ⟨?_, ?_, ?_⟩
  · intro path entry hEntry
    by_cases hPath : path = manifestPath
    · subst hPath
      rw [OrderedMap.get_set_self] at hEntry
      cases hEntry
      exact hLock
    · rw [hOther path hPath] at hEntry
      have hKept := h.kept path hPath
      have hNil : path ≠ [] := by
        rintro rfl
        have hNone : original.get [] = none := OrderedMap.get_eq_none_iff.mpr hCloned.rooted
        rw [Kept, hNone, hEntry] at hKept
        obtain hKept | ⟨hNil, -⟩ := hKept
        · cases hKept
        · exact hNil rfl
      have hNot := hFound (path, entry)
        (mem_below.mpr ⟨OrderedMap.get_eq_some_iff.mp hEntry, List.nil_prefix, hNil⟩)
      rw [hEntry] at hKept
      cases entry with
      | directory => rfl
      | link target => exact hNot
      | file content =>
          obtain ⟨first, hFirst, hContent⟩ := hKept.file
          have hNow : content = if isGenerated path then once host roots first else first := by
            by_cases hGenerated : isGenerated path = true
            · obtain ⟨content', hContent', -, hDone⟩ := h.files path first hGenerated hFirst
              rw [hEntry] at hContent'
              cases hContent'
              rw [if_pos hGenerated]
              exact hDone id
            · rw [if_neg hGenerated]
              obtain hContent | ⟨hYes, -⟩ := hContent
              · exact hContent
              · exact absurd hYes hGenerated
          have hSeen := hVisible path first hPath hFirst
          rw [← hNow] at hSeen
          have hBytes : bytesNameSource host roots content = false := hNot
          rw [namesSource, hBytes, Bool.false_or, Bool.and_eq_false_iff]
          by_cases hText : isText content = true
          · refine .inr ?_
            by_contra hNames
            rw [Bool.not_eq_false] at hNames
            rw [hSeen hText hNames] at hBytes
            cases hBytes
          · exact .inl (Bool.not_eq_true _ ▸ hText)
  · intro path first hGenerated hFirst hText
    have hPath : path ≠ manifestPath := by
      rintro rfl
      rw [isGenerated_manifestPath] at hGenerated
      cases hGenerated
    obtain ⟨content, hContent, -, hDone⟩ := h.files path first hGenerated hFirst
    refine ⟨content, by rw [hOther path hPath, hContent], ?_⟩
    rw [hDone id]
    exact replacedOnce_once hText (hLegible path first hGenerated hFirst)
  · intro path first hFirst
    have hPath : path ≠ manifestPath := by
      rintro rfl
      exact hCloned.plain _ List.mem_cons_self _ hFirst
    obtain ⟨target, hTarget, -, hDone⟩ := h.links path first hFirst
    rw [hOther path hPath, hTarget, hDone id]

/-- A run that comes to the end of the rewriting has rewritten the tree completely and once. -/
theorem runs_rewrite (hCloned : Cloned host roots original)
    (hJ : Allows host roots original manifest J)
    (hManifest : ∀ target, manifest ≠ some (.link target))
    (h : Progress host roots original manifest (fun _ => True) (fun _ => True) s.pods)
    (hVisible : ∀ path first, path ≠ manifestPath → original.get path = some (.file first) →
      Visible host roots (if isGenerated path then once host roots first else first))
    (hLegible : ∀ path first, isGenerated path = true → original.get path = some (.file first) →
      Legible host roots first) {podfileLock : Text}
    (hLock : (∀ content, manifest = some (.file content) →
        bytesNameSource host roots content = false) →
      namesSource host roots (.file (Utf8.encode podfileLock)) = false)
    (hEnd : ∀ pods touched, Relocated host roots original pods →
      pods.get manifestPath = some (.file (Utf8.encode podfileLock)) → J pods touched)
    (names : List Text) :
    Runs J (rewrite host roots listing podfileLock names) s fun _ pods _ =>
      Relocated host roots original pods ∧
        pods.get manifestPath = some (.file (Utf8.encode podfileLock)) := by
  have hStart : Progress host roots original manifest
      (fun path => ∃ dir ∈ GENERATED_DIRS, [dir] <+: path) (fun _ => True) s.pods := by
    refine h.congr (fun path first hGenerated _ => ?_) fun _ _ _ => Iff.rfl
    obtain ⟨dir, hDir, hBelow⟩ := List.any_eq_true.mp hGenerated
    rw [Bool.and_eq_true, List.isPrefixOf_iff_prefix] at hBelow
    exact iff_of_true trivial ⟨dir, hDir, hBelow.1⟩
  refine (runs_relocateGenerated hCloned hJ List.suffix_rfl hStart).bind fun _ t hFiles => ?_
  refine (runs_walkSymlinks hCloned hJ hManifest hFiles).bind fun _ u hLinks => ?_
  refine (runs_findPath (hLinks.allowed hJ _)).bind ?_
  rintro names' v ⟨⟨hPods, hTouched⟩, hNames⟩
  rw [← hPods] at hLinks hNames
  cases names' with
  | some leftover => exact runs_fail (hLinks.allowed hJ _)
  | none =>
      have hFound := hNames.mp rfl
      have hClean : ∀ content, manifest = some (.file content) →
          bytesNameSource host roots content = false := by
        rintro content rfl
        exact hFound (manifestPath, .file content)
          (mem_below.mpr ⟨OrderedMap.get_eq_some_iff.mp hLinks.manifest, List.nil_prefix,
            List.cons_ne_nil _ _⟩)
      have hDone := hLinks.complete hCloned hFound hVisible hLegible (hLock hClean)
      refine Runs.bind (Q := fun _ pods _ => Relocated host roots original pods ∧
        pods.get manifestPath = some (.file (Utf8.encode podfileLock))) ?_ ?_
      · exact runs_change (hLinks.allowed hJ _) (hEnd _ _ hDone OrderedMap.get_set_self)
          ⟨hDone, OrderedMap.get_set_self⟩
      · intro _ w hw
        exact runs_pure hw

end Operations

end Rewriting

end Stim.PodsRelocate
